/-!
# Four bytes

The fields of a container header are four bytes each: the magic as it stands, the others as
little-endian words.

Results:

1. `toWord_ofWord`, `ofWord_toWord`: words and groups of four bytes determine each other.
-/

namespace WireSchema

structure Quad where
  first : UInt8
  second : UInt8
  third : UInt8
  fourth : UInt8
  deriving DecidableEq, Repr

namespace Quad

def toList (q : Quad) : List UInt8 :=
  [q.first, q.second, q.third, q.fourth]

/-- The word whose least significant byte comes first. -/
def toWord (q : Quad) : UInt32 :=
  UInt32.ofNat
    (q.first.toNat + 256 * (q.second.toNat + 256 * (q.third.toNat + 256 * q.fourth.toNat)))

/-- The bytes of a word, the least significant one first. -/
def ofWord (w : UInt32) : Quad where
  first := UInt8.ofNat w.toNat
  second := UInt8.ofNat (w.toNat / 256)
  third := UInt8.ofNat (w.toNat / 65536)
  fourth := UInt8.ofNat (w.toNat / 16777216)

theorem toWord_ofWord (w : UInt32) : (ofWord w).toWord = w := by
  apply UInt32.toNat_inj.1
  have bound := w.toNat_lt
  simp only [toWord, ofWord, UInt8.toNat_ofNat', UInt32.toNat_ofNat']
  omega

theorem ofWord_toWord (q : Quad) : ofWord q.toWord = q := by
  obtain ⟨a, b, c, d⟩ := q
  have ha := a.toNat_lt
  have hb := b.toNat_lt
  have hc := c.toNat_lt
  have hd := d.toNat_lt
  simp only [toWord, ofWord, Quad.mk.injEq, ← UInt8.toNat_inj, UInt8.toNat_ofNat',
    UInt32.toNat_ofNat']
  refine ⟨?_, ?_, ?_, ?_⟩ <;> omega

end Quad

end WireSchema
