import Mixfix.Dict

/-!
# The order of texts by their bytes

Texts are compared by their code points. In UTF-8 the first byte of a character tells how many there
are, with more of them for later characters, and the bytes hold the digits of the code point with
the highest in front. So a text that is less than another one also has lesser bytes
(`bytes_lt_of_lt`).
-/

set_option autoImplicit false

namespace Mixfix

/-- The bytes of a text in UTF-8. -/
def bytes (s : String) : List UInt8 := s.toByteArray.data.toList

theorem bytes_eq (s : String) : bytes s = s.toList.flatMap String.utf8EncodeChar := by
  rw [bytes, ← String.utf8Encode_toList, List.utf8Encode, List.data_toByteArray]

/-- Bytes are compared by the numbers that they are made of. -/
theorem ofNat_cons_append_lt_iff {a b : Nat} (small : a < 256) (small' : b < 256)
    (l m rest more : List UInt8) : UInt8.ofNat a :: l ++ rest < UInt8.ofNat b :: m ++ more ↔
      a < b ∨ a = b ∧ l ++ rest < m ++ more := by
  rw [List.cons_append, List.cons_append, List.cons_lt_cons_iff, UInt8.lt_iff_toNat_lt,
    ← UInt8.toNat_inj, UInt8.toNat_ofNat_of_lt' small, UInt8.toNat_ofNat_of_lt' small']

theorem lt_of_quotient {v w : Nat} (less : v < w) :
    v / 64 < w / 64 ∨ v / 64 = w / 64 ∧ v % 64 < w % 64 := by
  omega

/-- Code points are compared by their digits in base sixty-four, of which their bytes are made. -/
theorem sextets_lt {v w : Nat} (less : v < w) (bound : w < 0x110000) :
    v / 262144 % 8 < w / 262144 % 8 ∨ v / 262144 % 8 = w / 262144 % 8 ∧
      (v / 4096 % 64 < w / 4096 % 64 ∨ v / 4096 % 64 = w / 4096 % 64 ∧
        (v / 64 % 64 < w / 64 % 64 ∨ v / 64 % 64 = w / 64 % 64 ∧ v % 64 < w % 64)) := by
  have third (n : Nat) : n / 4096 = n / 64 / 64 := by omega
  have first (n : Nat) : n / 262144 = n / 64 / 64 / 64 := by omega
  have top : v / 64 / 64 / 64 < 8 ∧ w / 64 / 64 / 64 < 8 := by omega
  rw [third, third, first, first, Nat.mod_eq_of_lt top.1, Nat.mod_eq_of_lt top.2]
  rcases lt_of_quotient less with less | ⟨same, less⟩
  · rcases lt_of_quotient less with less | ⟨same, less⟩
    · rcases lt_of_quotient less with less | ⟨same, less⟩
      · exact .inl less
      · exact .inr ⟨same, .inl less⟩
    · exact .inr ⟨by rw [same], .inr ⟨by rw [same], .inl less⟩⟩
  · exact .inr ⟨by rw [same], .inr ⟨by rw [same], .inr ⟨by rw [same], less⟩⟩⟩

/-- The bytes of a character are less than those of a later one, whatever stands behind them. -/
theorem utf8EncodeChar_append_lt {c d : Char} (less : c < d) (text more : List UInt8) :
    String.utf8EncodeChar c ++ text < String.utf8EncodeChar d ++ more := by
  have code : c.val.toNat < d.val.toNat := UInt32.lt_iff_toNat_lt.mp less
  have bound : d.val.toNat < 0x110000 := by
    rcases d.valid with below | ⟨_, below⟩
    · exact Nat.lt_trans below (by decide)
    · exact below
  have digits := sextets_lt code bound
  unfold String.utf8EncodeChar
  generalize c.val.toNat = v at code digits ⊢
  generalize d.val.toNat = w at code bound digits ⊢
  dsimp only
  repeat' split
  all_goals
    simp (disch := omega) only [ofNat_cons_append_lt_iff]
    omega

theorem flatMap_utf8EncodeChar_lt {text more : List Char} (less : text < more) :
    text.flatMap String.utf8EncodeChar < more.flatMap String.utf8EncodeChar := by
  induction text generalizing more with
  | nil =>
      cases more with
      | nil => exact absurd less (List.lt_irrefl _)
      | cons d more =>
          obtain ⟨byte, rest, same⟩ :=
            List.exists_cons_of_ne_nil (String.utf8EncodeChar_ne_nil (c := d))
          rw [List.flatMap_cons, same]
          exact List.nil_lt_cons _ _
  | cons c text ih =>
      cases more with
      | nil => exact absurd less (List.not_lt_nil _)
      | cons d more =>
          rw [List.flatMap_cons, List.flatMap_cons]
          rcases List.cons_lt_cons_iff.mp less with first | ⟨rfl, further⟩
          · exact utf8EncodeChar_append_lt first _ _
          · exact List.append_left_lt (ih further)

/-- Texts in order are in the order of their bytes. -/
theorem bytes_lt_of_lt {s t : String} (less : s < t) : bytes s < bytes t := by
  rw [bytes_eq, bytes_eq]
  exact flatMap_utf8EncodeChar_lt less

end Mixfix
