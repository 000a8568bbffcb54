/-
The key of the TypeScript `lookup` names one tuple.

`connectionKey` writes the length of the peer's name, the name and the two ports, with a colon after each but the last. A number is
written in digits, so its text ends at the first colon, and the length says where the name ends whatever it holds
(`connectionKey_injective`).
-/
import FipsTcp.Ts.Stack

namespace FipsTcp.Ts

/-! ## Numbers -/

theorem digit_code {c : Char} (h : c.isDigit = true) : 48 ≤ c.toNat ∧ c.toNat ≤ 57 := by
  simp only [Char.isDigit, Bool.and_eq_true, decide_eq_true_eq] at h
  exact h

theorem digits_code (n : ℕ) : (digits n).map (fun unit => Char.ofNat unit.toNat) = Nat.toDigits 10 n := by
  unfold digits
  rw [List.map_map]
  conv_rhs => rw [← List.map_id (Nat.toDigits 10 n)]
  refine List.map_congr_left fun c hc => ?_
  have hcode := digit_code (Nat.isDigit_of_mem_toDigits (by norm_num) le_rfl hc)
  have hunit : (BitVec.ofNat 16 c.toNat).toNat = c.toNat := Nat.mod_eq_of_lt (by omega)
  simp only [Function.comp_apply, hunit, Char.ofNat_toNat, id]

theorem digits_injective : Function.Injective digits := by
  intro a b h
  have hdigits : Nat.toDigits 10 a = Nat.toDigits 10 b := by rw [← digits_code, h, digits_code]
  rw [← Nat.ofDigitChars_ten_toDigits (n := a), hdigits, Nat.ofDigitChars_ten_toDigits]

theorem colon_notMem_digits (n : ℕ) : colon ∉ digits n := by
  intro h
  obtain ⟨c, hc, hcolon⟩ := List.mem_map.1 h
  have hcode := digit_code (Nat.isDigit_of_mem_toDigits (by norm_num) le_rfl hc)
  have hunit : (BitVec.ofNat 16 c.toNat).toNat = c.toNat := Nat.mod_eq_of_lt (by omega)
  rw [hcolon] at hunit
  have : colon.toNat = 58 := rfl
  omega

/-! ## Keys -/

/-- a number ends at the first colon -/
theorem digits_append_injective {a b : ℕ} {s t : JsString} (h : digits a ++ colon :: s = digits b ++ colon :: t) : a = b ∧ s = t := by
  have hbefore : ∀ n (rest : JsString), (digits n ++ colon :: rest).takeWhile (· != colon) = digits n := fun n rest => by
    have hall : ∀ unit ∈ digits n, (unit != colon) = true := fun unit hunit =>
      bne_iff_ne.2 fun heq => colon_notMem_digits n (heq ▸ hunit)
    rw [List.takeWhile_append_of_pos hall, List.takeWhile_cons_of_neg (by simp), List.append_nil]
  have hab : a = b := by
    have htake := congrArg (List.takeWhile (· != colon)) h
    rw [hbefore, hbefore] at htake
    exact digits_injective htake
  subst hab
  exact ⟨rfl, (List.cons.inj (List.append_cancel_left h)).2⟩

/-- **The text names the tuple.** -/
theorem connectionKey_injective {peer peer' : JsString} {localPort localPort' remotePort remotePort' : ℕ}
    (h : connectionKey peer localPort remotePort = connectionKey peer' localPort' remotePort') :
    peer = peer' ∧ localPort = localPort' ∧ remotePort = remotePort' := by
  simp only [connectionKey, List.append_assoc, List.singleton_append] at h
  obtain ⟨hlength, hrest⟩ := digits_append_injective h
  obtain ⟨hpeer, hports⟩ := List.append_inj hrest hlength
  obtain ⟨hlocal, hremote⟩ := digits_append_injective (List.cons.inj hports).2
  exact ⟨hpeer, hlocal, digits_injective hremote⟩

end FipsTcp.Ts
