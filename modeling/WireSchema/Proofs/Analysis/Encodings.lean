import WireSchema.Json.Reading
import WireSchema.Proofs.Analysis.Idempotence
import WireSchema.Proofs.Binary.Canonical

/-!
# Encodings belong to leaves

A writer of streams does not look whether a token that is no leaf has a scalar type or a byte order,
and a reader drops them. That a stream survives either serialized form rests on there being no such
token. There is none, wherever tokens come from: the constructors leave the encoding out, both
readers go through a constructor whatever they are given, and the passes copy tokens with another
offset and nothing else.

Results:

1. `leafEncoding_of_decode`, `leafEncoding_of_ofJson`: the tokens of any container and of any text.
2. `leafEncoding_of_layOutWith`, `leafEncoding_of_layOut`, `leafEncoding_of_analyse`: what a pass
   keeps.
3. `arises_iff`: the tokens that arise in any of these ways, one after the other, are those whose
   encoding, if any, belongs to a leaf.
-/

namespace WireSchema

/-! ## Readers -/

namespace Json

theorem leafEncoding_of_readTokens {items : Items} {s : TokenStream}
    (read : readTokens items = .ok s) : ∀ t ∈ s, t.LeafEncoding := by
  fun_induction readTokens items generalizing s with
  | case1 =>
    obtain rfl := Except.ok.inj read
    exact fun t listed => nomatch listed
  | case2 => cases read
  | case3 value rest ih =>
    obtain ⟨token, token_read, read⟩ := bind_eq_ok_iff.mp read
    obtain ⟨later, later_read, read⟩ := bind_eq_ok_iff.mp read
    obtain rfl := Except.ok.inj read
    exact List.forall_mem_cons.mpr ⟨readToken_leafEncoding token_read, ih later_read⟩

/-- What is read from a text is read from a document. -/
theorem exists_read_of_ofText {α : Type} {read : Reading α} {text : String} {a : α}
    (done : ofText read text = .ok a) : ∃ doc, read doc = .ok a := by
  rw [ofText] at done
  dsimp only at done
  split at done
  · cases done
  · next read_eq =>
    split at done
    · obtain rfl := Except.ok.inj done
      exact ⟨_, read_eq⟩
    · cases done

end Json

namespace TokenStream

variable {s r : TokenStream}

theorem leafEncoding_of_decode {bytes : List UInt8} (decoded : decode bytes = .ok s) :
    ∀ t ∈ s, t.LeafEncoding := by
  obtain ⟨_, _, _, _, read⟩ := exists_frames_of_decode decoded
  exact Payload.leafEncoding_of_read read

theorem leafEncoding_of_ofJson {text : String} (read : ofJson text = .ok s) :
    ∀ t ∈ s, t.LeafEncoding := by
  obtain ⟨doc, read⟩ := Json.exists_read_of_ofText read
  cases doc with
  | array items => exact Json.leafEncoding_of_readTokens read
  | _ => cases read

/-! ## Passes -/

theorem leafEncoding_zipWith (leafEncoding : ∀ t ∈ s, t.LeafEncoding) (offsets : List Offset) :
    ∀ t ∈ List.zipWith Token.withOffset s offsets, t.LeafEncoding := by
  induction s generalizing offsets with
  | nil => exact fun t listed => nomatch listed
  | cons token rest ih =>
    cases offsets with
    | nil => exact fun t listed => nomatch listed
    | cons offset others =>
      obtain ⟨here, later⟩ := List.forall_mem_cons.mp leafEncoding
      exact List.forall_mem_cons.mpr
        ⟨Token.withOffset_leafEncoding here offset, ih later others⟩

/-- Against any index, a layout keeps every token as it is but for the offset. -/
theorem leafEncoding_of_layOutWith {i : Index} (leafEncoding : ∀ t ∈ s, t.LeafEncoding)
    (laid : s.layOutWith i = .ok r) : ∀ t ∈ r, t.LeafEncoding := by
  rw [layOutWith] at laid
  split at laid
  · obtain ⟨offsets, _, laid⟩ := bind_eq_ok_iff.mp laid
    obtain rfl := Except.ok.inj laid
    exact leafEncoding_zipWith leafEncoding offsets
  · cases laid

theorem leafEncoding_of_layOut (leafEncoding : ∀ t ∈ s, t.LeafEncoding)
    (laid : s.layOut = .ok r) : ∀ t ∈ r, t.LeafEncoding := by
  obtain ⟨i, _, laid⟩ := layOut_eq_ok_iff.mp laid
  exact leafEncoding_of_layOutWith leafEncoding laid

theorem leafEncoding_of_analyse {policy : Policy} {a : Analysis}
    (leafEncoding : ∀ t ∈ s, t.LeafEncoding) (analysed : s.analyse policy = .ok a) :
    ∀ t ∈ a.stream, t.LeafEncoding := by
  obtain ⟨_, laid, _⟩ := analyse_eq_ok_iff.mp analysed
  exact leafEncoding_of_layOutWith leafEncoding laid

end TokenStream

/-! ## Tokens that arise -/

/-- The tokens that arise: they are built, they are copies with another size or offset, they are
read from some bytes or from some text, or they come out of a layout or of an analysis that tokens
of this kind have gone into. -/
inductive Token.Arises : Token → Prop
  | built {t : Token} (built : t.Obtainable) : t.Arises
  | withSize {t : Token} (size : Size) (arises : t.Arises) : (t.withSize size).Arises
  | withOffset {t : Token} (offset : Offset) (arises : t.Arises) : (t.withOffset offset).Arises
  | decode {bytes : List UInt8} {s : TokenStream} {t : Token}
      (decoded : TokenStream.decode bytes = .ok s) (listed : t ∈ s) : t.Arises
  | ofJson {text : String} {s : TokenStream} {t : Token}
      (read : TokenStream.ofJson text = .ok s) (listed : t ∈ s) : t.Arises
  | layOutWith {s r : TokenStream} {i : Index} {t : Token} (arise : ∀ u ∈ s, u.Arises)
      (laid : s.layOutWith i = .ok r) (listed : t ∈ r) : t.Arises
  | layOut {s r : TokenStream} {t : Token} (arise : ∀ u ∈ s, u.Arises)
      (laid : s.layOut = .ok r) (listed : t ∈ r) : t.Arises
  | analyse {s : TokenStream} {policy : Policy} {a : Analysis} {t : Token}
      (arise : ∀ u ∈ s, u.Arises) (analysed : s.analyse policy = .ok a) (listed : t ∈ a.stream) :
      t.Arises

/-- However a token has arisen, it has a scalar type or a byte order only if it is a leaf; and
there is no other restriction on the tokens that arise. -/
theorem Token.arises_iff (t : Token) :
    t.Arises ↔ (t.signal ≠ .encoding → t.scalar = none ∧ t.byteOrder = none) := by
  show t.Arises ↔ t.LeafEncoding
  constructor
  · intro arises
    induction arises with
    | built built => exact obtainable_iff.mp built
    | withSize size _ leafEncoding => exact withSize_leafEncoding leafEncoding size
    | withOffset offset _ leafEncoding => exact withOffset_leafEncoding leafEncoding offset
    | decode decoded listed => exact TokenStream.leafEncoding_of_decode decoded _ listed
    | ofJson read listed => exact TokenStream.leafEncoding_of_ofJson read _ listed
    | layOutWith _ laid listed leafEncoding =>
      exact TokenStream.leafEncoding_of_layOutWith leafEncoding laid _ listed
    | layOut _ laid listed leafEncoding =>
      exact TokenStream.leafEncoding_of_layOut leafEncoding laid _ listed
    | analyse _ analysed listed leafEncoding =>
      exact TokenStream.leafEncoding_of_analyse leafEncoding analysed _ listed
  · intro leafEncoding
    exact .built (obtainable_iff.mpr leafEncoding)

end WireSchema
