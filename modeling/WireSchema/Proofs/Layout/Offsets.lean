import WireSchema.Proofs.Layout.Tree

/-!
# The offsets of a stream

The layout of a whole stream, compared with the exact layout of the forest that the stream spells
out. Only the offsets are rewritten, and each of them is the exact number of bytes between the
start of the enclosing entity and the unit, as long as that number is known.

Results:

1. `layOut_of_proper`: the layout of the stream of a forest is the recursion over the forest.
2. `layOut_exact`: a layout keeps everything but the offsets, and the offsets are the exact ones.
-/

namespace WireSchema

namespace TokenStream

/-! ## Rewriting the offsets -/

theorem offsets_of_zipWith {s : TokenStream} {offsets : List Offset}
    (sized : offsets.length = s.length) :
    (List.zipWith Token.withOffset s offsets).map Token.offset = offsets := by
  rw [List.map_zipWith]
  show List.zipWith (fun _ offset => offset) s offsets = offsets
  induction s generalizing offsets with
  | nil => rw [List.eq_nil_of_length_eq_zero sized, List.zipWith_nil_right]
  | cons token rest ih =>
    cases offsets with
    | nil => cases sized
    | cons offset others =>
      rw [List.zipWith_cons_cons, ih (Nat.succ.inj sized)]

theorem withOffset_of_zipWith {s : TokenStream} {offsets : List Offset} {position : Nat}
    {t u : Token} (before : s[position]? = some t)
    (after : (List.zipWith Token.withOffset s offsets)[position]? = some u) :
    ∃ offset, u = t.withOffset offset := by
  rw [List.getElem?_zipWith, before] at after
  cases given : offsets[position]? with
  | none =>
    rw [given] at after
    cases after
  | some offset =>
    rw [given] at after
    exact ⟨offset, (Option.some.inj after).symm⟩

/-! ## The layout of a stream -/

/-- Against any index of the right length that knows the start of every end, the layout of the
stream of a forest is the recursion over the forest. -/
theorem layOutWith_of_brackets {f : Forest} (proper : f.Proper) {i : Index}
    (sized : i.length = f.tokens.length)
    (closed : ∀ start stop, (start, stop) ∈ f.brackets 0 → i.startOf? stop = some start) :
    f.tokens.layOutWith i = do
      let laid ← f.layOut 0 .zero
      return List.zipWith Token.withOffset f.tokens laid.offsets := by
  have walked := Layout.offsets_tokens_append proper closed .zero [] []
  rw [List.append_nil] at walked
  rw [layOutWith, if_pos sized, walked]
  cases f.layOut 0 .zero with
  | error e => rfl
  | ok laid =>
    show Except.ok (List.zipWith Token.withOffset f.tokens (laid.offsets ++ [])) = _
    rw [List.append_nil]
    rfl

/-- The layout of the stream of a forest is the recursion over the forest. -/
theorem layOut_of_proper {f : Forest} (proper : f.Proper) :
    f.tokens.layOut = do
      let laid ← f.layOut 0 .zero
      return List.zipWith Token.withOffset f.tokens laid.offsets := by
  rw [layOut, index_of_proper proper]
  exact layOutWith_of_brackets proper f.index_length fun _ _ => Index.startOf?_index_iff.mpr

/-- A stream is laid out when its forest is, with the offsets of the forest. -/
theorem layOut_of_laid {f : Forest} (proper : f.Proper) {laid : Laid}
    (done : f.layOut 0 .zero = .ok laid) :
    ∃ r, f.tokens.layOut = .ok r ∧ r.map Token.offset = laid.offsets := by
  refine ⟨List.zipWith Token.withOffset f.tokens laid.offsets, ?_,
    offsets_of_zipWith (Forest.length_of_layOut done)⟩
  rw [layOut_of_proper proper, done]
  rfl

/-- A stream that can be laid out is well nested, and the layout of its forest yields it. -/
theorem exists_forest_of_layOut {s r : TokenStream} (laid : s.layOut = .ok r) :
    ∃ f : Forest, f.Proper ∧ f.tokens = s := by
  cases indexed : s.index true with
  | error e =>
    rw [layOut, indexed] at laid
    cases laid
  | ok i =>
    obtain ⟨_, f, proper, spelled, _⟩ := index_eq_ok_iff.mp indexed
    exact ⟨f, proper, spelled⟩

/-- The offsets of a layout are the exact ones of the forest. -/
theorem exact_of_layOut {f : Forest} (proper : f.Proper) {r : TokenStream}
    (laid : f.tokens.layOut = .ok r) :
    r.map (fun t => t.offset.exact) = f.offsets (some 0) := by
  rw [layOut_of_proper proper] at laid
  obtain ⟨found, found_eq, laid⟩ := bind_eq_ok_iff.mp laid
  obtain rfl := Except.ok.inj laid
  show List.map (Offset.exact ∘ Token.offset) _ = _
  rw [← List.map_map, offsets_of_zipWith (Forest.length_of_layOut found_eq)]
  exact Forest.offsets_of_layOut found_eq

/-- Whenever a stream can be laid out, exactly one forest spells it, every token keeps its signal,
scalar type, size, byte order and metadata, and the offsets are the exact ones of the forest. -/
theorem layOut_exact {s r : TokenStream} (laid : s.layOut = .ok r) :
    r.length = s.length ∧
      (∀ (position : Nat) (t u : Token), s[position]? = some t → r[position]? = some u →
        u.signal = t.signal ∧ u.scalar = t.scalar ∧ u.size = t.size ∧
          u.byteOrder = t.byteOrder ∧ u.metadata = t.metadata) ∧
      ∃ f : Forest, (f.Proper ∧ f.tokens = s) ∧ (∀ g : Forest, g.Proper → g.tokens = s → g = f) ∧
        r.map (fun t => t.offset.exact) = f.offsets (some 0) := by
  obtain ⟨f, proper, rfl⟩ := exists_forest_of_layOut laid
  rw [layOut_of_proper proper] at laid
  cases exceeded : f.overflows 0 (some 0) with
  | cons last others =>
    -- a unit that overflows is reported, so that there would be no layout
    rw [Forest.layOut_of_overflow 0 .zero exceeded] at laid
    cases laid
  | nil =>
    obtain ⟨found, found_eq, _, offsets_eq⟩ := Forest.layOut_of_fits 0 .zero exceeded
    rw [found_eq] at laid
    obtain rfl := Except.ok.inj laid
    have sized : found.offsets.length = f.tokens.length := by
      rw [← List.length_map Offset.exact, offsets_eq, Forest.offsets_length]
    refine ⟨?_, ?_, f, ⟨proper, rfl⟩, ?_, ?_⟩
    · rw [List.length_zipWith, sized, Nat.min_self]
    · intro position t u before after
      obtain ⟨offset, rfl⟩ := withOffset_of_zipWith before after
      exact ⟨rfl, rfl, rfl, rfl, rfl⟩
    · intro g g_proper spelled
      exact Forest.tokens_injective g_proper proper spelled
    · show List.map (Offset.exact ∘ Token.offset) _ = _
      rw [← List.map_map, offsets_of_zipWith sized]
      exact offsets_eq

/-- A message with a fixed leaf, a group of two leaves, and a leaf behind the group. -/
def groupedMessage : TokenStream :=
  [.structural (.start .message) ⟨"quote", some 1, none, default, none⟩,
   .leaf .int64 .littleEndian ⟨"time", none, none, default, none⟩,
   .structural (.start .group) ⟨"levels", some 2, none, default, none⟩,
   .leaf .uint16 .littleEndian ⟨"price", none, none, default, none⟩,
   .leaf .uint16 .bigEndian ⟨"volume", none, none, default, none⟩,
   .structural (.stop .group) ⟨"levels", some 2, none, default, none⟩,
   .leaf .uint8 .littleEndian ⟨"flags", none, none, default, none⟩,
   .structural (.stop .message) ⟨"quote", some 1, none, default, none⟩]

theorem groupedMessage_layOut :
    ∃ r, groupedMessage.layOut = .ok r ∧ r.length = 8 ∧
      r.map (fun t => t.offset.exact)
        = [some 0, some 0, some 8, some 0, some 2, some 8, none, some 0] :=
  ⟨_, rfl, (layOut_exact (s := groupedMessage) rfl).1, rfl⟩

end TokenStream

end WireSchema
