import PropShear.Proofs.Edit.Canonical
import PropShear.Proofs.Text.Boundary

/-! Deleting characters deletes their bytes.

What is left of a text, in UTF-8, is what is left of its bytes, as long as the bytes to delete are
those of the characters that are deleted (`encode_keptFrom`). -/
namespace PropShear

namespace Text

/-- The bytes whose offset is not gone, in order; the first one has the given offset. -/
def survivorsFrom (gone : Nat → Bool) (offset : Nat) (bytes : List UInt8) : List UInt8 :=
  ((bytes.zipIdx offset).filter fun b => !gone b.2).map Prod.fst

/-- The bytes of a whole text whose offset is not gone, in order. -/
def survivors (gone : Nat → Bool) (bytes : List UInt8) : List UInt8 := survivorsFrom gone 0 bytes

theorem survivorsFrom_append (gone : Nat → Bool) (offset : Nat) (a b : List UInt8) :
    survivorsFrom gone offset (a ++ b) =
      survivorsFrom gone offset a ++ survivorsFrom gone (offset + a.length) b := by
  simp only [survivorsFrom, List.zipIdx_append, List.filter_append, List.map_append]

/-- Bytes that share one fate all go or all stay. -/
theorem survivorsFrom_const {gone : Nat → Bool} {offset : Nat} {bytes : List UInt8} {fate : Bool}
    (h : ∀ b, offset ≤ b → b < offset + bytes.length → gone b = fate) :
    survivorsFrom gone offset bytes = if fate then [] else bytes := by
  induction bytes generalizing offset with
  | nil => cases fate <;> rfl
  | cons x rest ih =>
    have hx : gone offset = fate := h offset (Nat.le_refl _) (by simp)
    have hrest : survivorsFrom gone (offset + 1) rest = if fate then [] else rest :=
      ih fun b hle hlt => h b (by omega) (by simp only [List.length_cons]; omega)
    unfold survivorsFrom at hrest ⊢
    rw [List.zipIdx_cons, List.filter_cons, hx]
    cases fate with
    | true => simpa using hrest
    | false => simpa using hrest

/-- Where an offset falls among the survivors. -/
def moved (gone : Nat → Bool) (b : Nat) : Nat := (List.range b).countP fun i => !gone i

theorem length_survivors (gone : Nat → Bool) (bytes : List UInt8) :
    (survivors gone bytes).length = moved gone bytes.length := by
  rw [survivors, survivorsFrom, List.length_map, ← List.countP_eq_length_filter, moved,
    List.range_eq_range', ← List.zipIdx_map_snd, List.countP_map]
  rfl

end Text

/-- If each byte shares the fate of its character, deleting characters deletes their bytes. -/
theorem Editor.encode_keptFrom (spans : List Span) (gone : Nat → Bool) (text : List Char)
    (index offset : Nat)
    (h : ∀ k < text.length, ∀ b, Text.byteOffset text k ≤ b → b < Text.byteOffset text (k + 1) →
      gone (offset + b) = Span.covers spans (index + k)) :
    Text.Utf8.encode (keptFrom spans index text) =
      Text.survivorsFrom gone offset (Text.Utf8.encode text) := by
  induction text generalizing index offset with
  | nil => rfl
  | cons c rest ih =>
    have hfirst : Text.survivorsFrom gone offset (String.utf8EncodeChar c) =
        if Span.covers spans index then [] else String.utf8EncodeChar c := by
      apply Text.survivorsFrom_const
      intro b hle hlt
      rw [String.length_utf8EncodeChar] at hlt
      have hb := h 0 (by simp) (b - offset) (by simp) (by simp; omega)
      rwa [Nat.add_zero, Nat.add_sub_of_le hle] at hb
    have hrest := ih (index + 1) (offset + c.utf8Size) fun k hk b hle hlt => by
      have hb := h (k + 1) (by simpa using hk) (c.utf8Size + b)
        (by rw [Text.byteOffset_cons_succ]; omega) (by rw [Text.byteOffset_cons_succ]; omega)
      rwa [← Nat.add_assoc, Nat.add_comm k 1, ← Nat.add_assoc] at hb
    have hencode : Text.Utf8.encode (c :: rest) =
        String.utf8EncodeChar c ++ Text.Utf8.encode rest := List.flatMap_cons
    rw [hencode, Text.survivorsFrom_append, String.length_utf8EncodeChar, hfirst, ← hrest,
      keptFrom]
    split
    · rfl
    · exact List.flatMap_cons

namespace Editor

/-- The bytes that are gone are those of the characters that the spans cover. -/
def SharesFate (spans : List Span) (gone : Nat → Bool) (text : List Char) : Prop :=
  ∀ k < text.length, ∀ b, Text.byteOffset text k ≤ b → b < Text.byteOffset text (k + 1) →
    gone b = Span.covers spans k

variable {spans : List Span} {gone : Nat → Bool} {text : List Char}

theorem SharesFate.encode_eq (h : SharesFate spans gone text) :
    Text.Utf8.encode (keptFrom spans 0 text) =
      Text.survivors gone (Text.Utf8.encode text) := by
  apply encode_keptFrom
  intro k hk b hle hlt
  rw [Nat.zero_add, Nat.zero_add]
  exact h k hk b hle hlt

theorem SharesFate.take (h : SharesFate spans gone text) {i : Nat} (hi : i ≤ text.length) :
    SharesFate spans gone (text.take i) := by
  intro k hk b hle hlt
  rw [List.length_take, Nat.min_eq_left hi] at hk
  have hoffset : ∀ {j}, j ≤ i → Text.byteOffset (text.take i) j = Text.byteOffset text j := by
    intro j hj
    rw [Text.byteOffset, Text.byteOffset, List.take_take, Nat.min_eq_left hj]
  rw [hoffset (Nat.le_of_lt hk)] at hle
  rw [hoffset hk] at hlt
  exact h k (by omega) b hle hlt

theorem SharesFate.moved_eq (h : SharesFate spans gone text) {i : Nat} (hi : i ≤ text.length) :
    Text.moved gone (Text.byteOffset text i) =
      Text.byteLength (keptFrom spans 0 (text.take i)) := by
  rw [← Text.Utf8.length_encode, (h.take hi).encode_eq, Text.length_survivors,
    Text.Utf8.length_encode]
  rfl

/-- A stretch of text that no span covers is found again where its ends have moved. -/
theorem SharesFate.slice?_eq (h : SharesFate spans gone text) {i k : Nat} (hik : i ≤ k)
    (hk : k ≤ text.length) (hfree : ∀ j, i ≤ j → j < k → Span.covers spans j = false) :
    Text.slice? (keptFrom spans 0 text) (Text.moved gone (Text.byteOffset text i))
        (Text.moved gone (Text.byteOffset text k)) =
      Text.slice? text (Text.byteOffset text i) (Text.byteOffset text k) := by
  have hlength : (text.take i).length = i := by rw [List.length_take]; omega
  have htake : text.take k = text.take i ++ (text.drop i).take (k - i) := by
    rw [← List.take_add, Nat.add_sub_of_le hik]
  have hmiddle : keptFrom spans i ((text.drop i).take (k - i)) = (text.drop i).take (k - i) := by
    apply keptFrom_of_free
    intro j hle hlt
    rw [List.length_take] at hlt
    exact hfree j hle (by omega)
  have hkept : keptFrom spans 0 (text.take k) =
      keptFrom spans 0 (text.take i) ++ (text.drop i).take (k - i) := by
    rw [htake, keptFrom_append, hlength, Nat.zero_add, hmiddle]
  have hall : keptFrom spans 0 text = keptFrom spans 0 (text.take i) ++
      (text.drop i).take (k - i) ++ keptFrom spans (0 + (text.take k).length) (text.drop k) := by
    rw [← hkept, ← keptFrom_append, List.take_append_drop]
  rw [Text.slice?_byteOffset text hik hk, h.moved_eq (by omega), h.moved_eq hk, hkept, hall]
  exact Text.slice?_middle _ _ _

end Editor
end PropShear
