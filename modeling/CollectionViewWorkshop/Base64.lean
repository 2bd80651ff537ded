import Mathlib.Data.Nat.Notation

/-!
Base64 with padding. A reader that ignores characters it does not know reads
back the bytes that were written.
-/

namespace CollectionViewWorkshop.Base64

def digit (value : ℕ) : Char :=
  if value < 26 then Char.ofNat (65 + value)
  else if value < 52 then Char.ofNat (71 + value)
  else if value < 62 then Char.ofNat (value - 4)
  else if value = 62 then '+'
  else '/'

def digitValue (digit : Char) : Option ℕ :=
  if 65 ≤ digit.toNat ∧ digit.toNat < 91 then some (digit.toNat - 65)
  else if 97 ≤ digit.toNat ∧ digit.toNat < 123 then some (digit.toNat - 71)
  else if 48 ≤ digit.toNat ∧ digit.toNat < 58 then some (digit.toNat + 4)
  else if digit = '+' then some 62
  else if digit = '/' then some 63
  else none

def encode : List UInt8 → List Char
  | [] => []
  | [first] =>
      [digit (first.toNat / 4), digit (first.toNat % 4 * 16), '=', '=']
  | [first, second] =>
      [digit (first.toNat / 4), digit (first.toNat % 4 * 16 + second.toNat / 16),
        digit (second.toNat % 16 * 4), '=']
  | first :: second :: third :: rest =>
      digit (first.toNat / 4) :: digit (first.toNat % 4 * 16 + second.toNat / 16) ::
        digit (second.toNat % 16 * 4 + third.toNat / 64) :: digit (third.toNat % 64) ::
          encode rest

def decodeGroups : List Char → Option (List UInt8)
  | [] => some []
  | first :: second :: third :: fourth :: rest =>
      match digitValue first, digitValue second, digitValue third, digitValue fourth with
      | some a, some b, some c, some d =>
          (decodeGroups rest).map fun bytes =>
            UInt8.ofNat (a * 4 + b / 16) :: UInt8.ofNat (b % 16 * 16 + c / 4) ::
              UInt8.ofNat (c % 4 * 64 + d) :: bytes
      | some a, some b, some c, none =>
          if fourth = '=' ∧ rest = [] then
            some [UInt8.ofNat (a * 4 + b / 16), UInt8.ofNat (b % 16 * 16 + c / 4)]
          else none
      | some a, some b, none, none =>
          if third = '=' ∧ fourth = '=' ∧ rest = [] then some [UInt8.ofNat (a * 4 + b / 16)]
          else none
      | _, _, _, _ => none
  | _ => none

def known (character : Char) : Bool := (digitValue character).isSome || character = '='

def decode (text : List Char) : Option (List UInt8) := decodeGroups (text.filter known)

theorem digitValue_digit_all : ∀ value < 64, digitValue (digit value) = some value := by
  decide

theorem digitValue_digit (value : ℕ) (small : value < 64) :
    digitValue (digit value) = some value :=
  digitValue_digit_all value small

theorem known_digit (value : ℕ) (small : value < 64) : known (digit value) = true := by
  simp [known, digitValue_digit value small]

theorem byte_eq (byte : UInt8) (value : ℕ) (same : value = byte.toNat) :
    UInt8.ofNat value = byte := by
  rw [same, UInt8.ofNat_toNat]

theorem filter_encode (bytes : List UInt8) : (encode bytes).filter known = encode bytes := by
  have padding : known '=' = true := by decide
  induction bytes using encode.induct with
  | case1 => rfl
  | case2 first =>
      have small := first.toNat_lt
      simp [encode, padding, known_digit _ (by omega : first.toNat / 4 < 64),
        known_digit _ (by omega : first.toNat % 4 * 16 < 64)]
  | case3 first second =>
      have small := first.toNat_lt
      have smallToo := second.toNat_lt
      simp [encode, padding, known_digit _ (by omega : first.toNat / 4 < 64),
        known_digit _ (by omega : first.toNat % 4 * 16 + second.toNat / 16 < 64),
        known_digit _ (by omega : second.toNat % 16 * 4 < 64)]
  | case4 first second third rest ih =>
      have small := first.toNat_lt
      have smallToo := second.toNat_lt
      have smallLast := third.toNat_lt
      simp [encode, ih, known_digit _ (by omega : first.toNat / 4 < 64),
        known_digit _ (by omega : first.toNat % 4 * 16 + second.toNat / 16 < 64),
        known_digit _ (by omega : second.toNat % 16 * 4 + third.toNat / 64 < 64),
        known_digit _ (by omega : third.toNat % 64 < 64)]

theorem decodeGroups_encode (bytes : List UInt8) : decodeGroups (encode bytes) = some bytes := by
  have padding : digitValue '=' = none := by decide
  induction bytes using encode.induct with
  | case1 => rfl
  | case2 first =>
      have small := first.toNat_lt
      rw [encode, decodeGroups, digitValue_digit _ (by omega), digitValue_digit _ (by omega),
        padding]
      simp only [true_and, if_true]
      rw [byte_eq first _ (by omega)]
  | case3 first second =>
      have small := first.toNat_lt
      have smallToo := second.toNat_lt
      rw [encode, decodeGroups, digitValue_digit _ (by omega), digitValue_digit _ (by omega),
        digitValue_digit _ (by omega), padding]
      simp only [true_and, if_true]
      rw [byte_eq first _ (by omega), byte_eq second _ (by omega)]
  | case4 first second third rest ih =>
      have small := first.toNat_lt
      have smallToo := second.toNat_lt
      have smallLast := third.toNat_lt
      rw [encode, decodeGroups, digitValue_digit _ (by omega), digitValue_digit _ (by omega),
        digitValue_digit _ (by omega), digitValue_digit _ (by omega)]
      simp only [ih, Option.map_some]
      rw [byte_eq first _ (by omega), byte_eq second _ (by omega), byte_eq third _ (by omega)]

theorem decode_encode (bytes : List UInt8) : decode (encode bytes) = some bytes := by
  rw [decode, filter_encode, decodeGroups_encode]

end CollectionViewWorkshop.Base64
