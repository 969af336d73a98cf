import Mathlib.Data.List.Forall2
import WireSchema.Record
import WireSchema.Sequencing

/-!
# What a record means

A record denotes the token with its signal, its metadata and the size and offset that its wire
integers stand for. An encoding belongs to leaves only, and any other record that has one denotes a
token without it. This module says so without the checks and their order: which token a record
denotes, and which records denote one at all.

Results:

1. `Record.toToken_eq_ok_iff`: the checks yield the token that a record denotes.
2. `Record.exists_denotes_iff`: a record denotes no token exactly when a wire integer is out of
   range or the metadata is missing.
3. `TokenStream.ofRecords_eq_ok_iff`, `TokenStream.exists_denotes_iff`: so it is with lists of
   records.
-/

namespace WireSchema

/-! ## Wire integers -/

/-- A wire integer is the sentinel or a count of 32 bits. -/
def OnWire (value : Int64) : Prop :=
  value = -1 ∨ 0 ≤ value.toInt ∧ value.toInt ≤ 4294967295

instance (value : Int64) : Decidable (OnWire value) :=
  inferInstanceAs (Decidable (_ ∨ _))

theorem wireOfCount_of_inside {value : Int64} (low : 0 ≤ value.toInt)
    (high : value.toInt ≤ 4294967295) :
    wireOfCount (some (UInt32.ofNat value.toInt.toNat)) = value := by
  have bound : value.toInt.toNat < UInt32.size := by
    show value.toInt.toNat < 4294967296
    omega
  rw [wireOfCount, UInt32.toNat_ofNat_of_lt' bound, ← Int64.ofInt_eq_ofNat,
    Int.toNat_of_nonneg low, Int64.ofInt_toInt]

theorem countOfWire?_eq_some_iff {value : Int64} {count : Option UInt32} :
    countOfWire? value = some count ↔ wireOfCount count = value := by
  constructor
  · intro stands
    rw [countOfWire?] at stands
    split at stands
    · next unknown =>
      obtain rfl := Option.some.inj stands
      exact unknown.symm
    · split at stands
      · next inside =>
        obtain rfl := Option.some.inj stands
        exact wireOfCount_of_inside inside.1 (Int.le_of_lt_add_one inside.2)
      · cases stands
  · rintro rfl
    exact countOfWire?_wireOfCount count

theorem exists_wireOfCount_iff {value : Int64} :
    (∃ count, wireOfCount count = value) ↔ OnWire value := by
  constructor
  · rintro ⟨_ | n, rfl⟩
    · exact .inl rfl
    · have bound := n.toNat_lt
      have counted : (wireOfCount (some n)).toInt = n.toNat := toInt_ofNat_of_lt bound
      refine .inr ⟨?_, ?_⟩ <;> rw [counted] <;> omega
  · rintro (rfl | ⟨low, high⟩)
    · exact ⟨none, rfl⟩
    · exact ⟨_, wireOfCount_of_inside low high⟩

theorem Size.ofWire_eq_ok_iff {value : Int64} {size : Size} :
    ofWire value = .ok size ↔ size.toWire = value := by
  rw [ofWire, toWire, ← countOfWire?_eq_some_iff]
  cases countOfWire? value with
  | none => simp
  | some count => cases count <;> cases size <;> simp [bytes?]

theorem Size.exists_toWire_iff {value : Int64} :
    (∃ size : Size, size.toWire = value) ↔ OnWire value := by
  rw [← exists_wireOfCount_iff]
  constructor
  · rintro ⟨size, rfl⟩
    exact ⟨size.bytes?, rfl⟩
  · rintro ⟨_ | n, rfl⟩
    · exact ⟨varying, rfl⟩
    · exact ⟨fixed n, rfl⟩

theorem Offset.ofWire_eq_ok_iff {value : Int64} {offset : Offset} :
    ofWire value = .ok offset ↔ offset.toWire = value := by
  rw [ofWire, toWire, ← countOfWire?_eq_some_iff]
  cases countOfWire? value with
  | none => simp
  | some count => cases count <;> cases offset <;> simp [bytes?]

theorem Offset.exists_toWire_iff {value : Int64} :
    (∃ offset : Offset, offset.toWire = value) ↔ OnWire value := by
  rw [← exists_wireOfCount_iff]
  constructor
  · rintro ⟨offset, rfl⟩
    exact ⟨offset.bytes?, rfl⟩
  · rintro ⟨_ | n, rfl⟩
    · exact ⟨unknown, rfl⟩
    · exact ⟨known n, rfl⟩

/-! ## Records -/

namespace Record

/-- A record denotes a token. -/
structure Denotes (r : Record) (t : Token) : Prop where
  signal : t.signal = r.signal
  /-- Only a leaf keeps its encoding, -/
  scalar : t.scalar = if r.signal = .encoding then r.scalar else none
  size : t.size.toWire = r.size
  offset : t.offset.toWire = r.offset
  /-- and its byte order with it. -/
  byteOrder : t.byteOrder = if r.signal = .encoding then r.byteOrder else none
  metadata : some t.metadata = r.metadata

/-- A record that denotes some token. -/
structure Valid (r : Record) : Prop where
  size : OnWire r.size
  offset : OnWire r.offset
  metadata : r.metadata ≠ none

theorem filter_isEncoding {α : Type} (signal : Signal) (given : Option α) :
    (given.filter fun _ => signal.isEncoding) = if signal = .encoding then given else none := by
  cases signal <;> cases given <;> simp [Signal.isEncoding]

theorem toToken_eq_ok_iff {r : Record} {t : Token} : r.toToken = .ok t ↔ r.Denotes t := by
  constructor
  · intro made
    rw [toToken] at made
    split at made
    · cases made
    · next size size_eq =>
      split at made
      · cases made
      · next offset offset_eq =>
        cases given : r.metadata with
        | none =>
          rw [given] at made
          cases made
        | some metadata =>
          rw [given] at made
          cases made
          exact ⟨rfl, filter_isEncoding _ _, Size.ofWire_eq_ok_iff.mp size_eq,
            Offset.ofWire_eq_ok_iff.mp offset_eq, filter_isEncoding _ _, given.symm⟩
  · intro denotes
    obtain ⟨signal, scalar, size, offset, byteOrder, metadata⟩ := t
    obtain ⟨rfl, rfl, size_eq, offset_eq, rfl, given⟩ := denotes
    rw [toToken, Size.ofWire_eq_ok_iff.mpr size_eq, Offset.ofWire_eq_ok_iff.mpr offset_eq, ← given]
    simp only [Token.make, filter_isEncoding]

theorem exists_denotes_iff {r : Record} : (∃ t, r.Denotes t) ↔ r.Valid := by
  constructor
  · rintro ⟨t, denotes⟩
    refine ⟨Size.exists_toWire_iff.mp ⟨_, denotes.size⟩,
      Offset.exists_toWire_iff.mp ⟨_, denotes.offset⟩, ?_⟩
    rw [← denotes.metadata]
    exact Option.some_ne_none _
  · rintro ⟨size, offset, metadata⟩
    obtain ⟨size, size_eq⟩ := Size.exists_toWire_iff.mpr size
    obtain ⟨offset, offset_eq⟩ := Offset.exists_toWire_iff.mpr offset
    obtain ⟨m, given⟩ := Option.ne_none_iff_exists.mp metadata
    exact ⟨⟨r.signal, _, size, offset, _, m⟩, rfl, rfl, size_eq, offset_eq, rfl, given⟩

end Record

/-! ## Lists of records -/

namespace TokenStream

/-- The stream of the tokens that records stand for, up to the first record that stands for none. -/
def ofRecords : List Record → Except RecordError TokenStream
  | [] => .ok []
  | r :: rest => do
    let token ← r.toToken
    let later ← ofRecords rest
    return token :: later

theorem ofRecords_toRecord {s : TokenStream} (leafEncoding : ∀ t ∈ s, t.LeafEncoding) :
    ofRecords (s.map Token.toRecord) = .ok s := by
  induction s with
  | nil => rfl
  | cons token later ih =>
    obtain ⟨here, behind⟩ := List.forall_mem_cons.mp leafEncoding
    rw [List.map_cons, ofRecords, Record.toToken_toRecord here, ok_bind, ih behind]
    rfl

theorem ofRecords_eq_ok_iff {records : List Record} {s : TokenStream} :
    ofRecords records = .ok s ↔ List.Forall₂ Record.Denotes records s := by
  induction records generalizing s with
  | nil => simp [ofRecords, eq_comm]
  | cons r rest ih =>
    rw [ofRecords, bind_eq_ok_iff, List.forall₂_cons_left_iff]
    constructor
    · rintro ⟨t, made, others⟩
      obtain ⟨later, later_eq, done⟩ := bind_eq_ok_iff.mp others
      exact ⟨t, later, Record.toToken_eq_ok_iff.mp made, ih.mp later_eq,
        (Except.ok.inj done).symm⟩
    · rintro ⟨t, later, denotes, others, rfl⟩
      exact ⟨t, Record.toToken_eq_ok_iff.mpr denotes, by rw [ih.mpr others]; rfl⟩

theorem exists_denotes_iff {records : List Record} :
    (∃ s, List.Forall₂ Record.Denotes records s) ↔ ∀ r ∈ records, r.Valid := by
  induction records with
  | nil => simp
  | cons r rest ih =>
    rw [List.forall_mem_cons, ← ih, ← Record.exists_denotes_iff]
    constructor
    · rintro ⟨_, denotes | ⟨denotes, others⟩⟩
      exact ⟨⟨_, denotes⟩, _, others⟩
    · rintro ⟨⟨t, denotes⟩, s, others⟩
      exact ⟨t :: s, .cons denotes others⟩

end TokenStream

end WireSchema
