import Mathlib.Algebra.Order.Ring.Nat
import Mathlib.Data.List.Basic

/-! # Fixed-width numerals

`Digits.padded b w n` is the numeral of `n` in base `b` filled up with zeros to the width `w`. Below
`b ^ w` it reads back as the number (`Digits.value?_padded`), so it determines the number
(`Digits.padded_inj`), and numerals of one width are ordered like their numbers
(`Digits.padded_lt`). -/

namespace Digits
variable {b w m n : Nat}

def padded (b : Nat) : Nat → Nat → List Char
  | 0, _ => []
  | w + 1, n => padded b w (n / b) ++ [Nat.digitChar (n % b)]

@[simp] theorem length_padded : (padded b w n).length = w := by
  induction w generalizing n with
  | zero => rfl
  | succ w ih => simp [padded, ih]

/-- The value of a digit up to sixteen, in either case. -/
def digit? (c : Char) : Option Nat :=
  if '0' ≤ c ∧ c ≤ '9' then some (c.toNat - '0'.toNat)
  else if 'a' ≤ c ∧ c ≤ 'f' then some (c.toNat - 'a'.toNat + 10)
  else if 'A' ≤ c ∧ c ≤ 'F' then some (c.toNat - 'A'.toNat + 10)
  else none

def value? (b : Nat) (cs : List Char) : Option Nat :=
  cs.foldlM (fun n c => (digit? c).map (n * b + ·)) 0

theorem digit?_digitChar {d : Nat} (h : d < 16) : digit? (Nat.digitChar d) = some d := by
  have hall : ∀ d < 16, digit? (Nat.digitChar d) = some d := by decide
  exact hall d h

theorem value?_padded (hb : b ≤ 16) (hn : n < b ^ w) : value? b (padded b w n) = some n := by
  induction w generalizing n with
  | zero =>
    have h0 : n = 0 := by simpa using hn
    subst h0
    rfl
  | succ w ih =>
    rw [Nat.pow_succ] at hn
    have hpos : 0 < b := by
      rcases Nat.eq_zero_or_pos b with rfl | h
      · omega
      · exact h
    have hdigit : digit? (Nat.digitChar (n % b)) = some (n % b) :=
      digit?_digitChar (Nat.lt_of_lt_of_le (Nat.mod_lt n hpos) hb)
    have hdiv : value? b (padded b w (n / b)) = some (n / b) :=
      ih (Nat.div_lt_of_lt_mul (by rwa [Nat.mul_comm] at hn))
    rw [value?] at hdiv ⊢
    rw [padded, List.foldlM_append, hdiv]
    simp only [List.foldlM_cons, List.foldlM_nil, hdigit, Option.map_some, Option.bind_eq_bind,
      Option.bind_some, Option.pure_def, Option.some.injEq]
    rw [Nat.mul_comm]
    exact Nat.div_add_mod n b

theorem padded_inj (hb : b ≤ 16) (hm : m < b ^ w) (hn : n < b ^ w)
    (h : padded b w m = padded b w n) : m = n := by
  have hvalue := value?_padded hb hm
  rw [h, value?_padded hb hn] at hvalue
  exact (Option.some.inj hvalue).symm

/-- Of texts with beginnings of one length, the beginnings decide first. -/
theorem append_lt_append {as bs cs ds : List Char} (hlength : as.length = bs.length)
    (h : as < bs ∨ as = bs ∧ cs < ds) : as ++ cs < bs ++ ds := by
  induction as generalizing bs with
  | nil =>
    cases List.length_eq_zero_iff.1 hlength.symm
    rcases h with h | ⟨-, h⟩
    · exact absurd h (List.lt_irrefl [])
    · exact h
  | cons a as ih =>
    cases bs with
    | nil => cases hlength
    | cons b bs =>
      rw [List.cons_append, List.cons_append, List.cons_lt_cons_iff]
      rw [List.cons_lt_cons_iff, List.cons.injEq] at h
      have ih := @ih bs (Nat.succ.inj hlength)
      rcases h with (h | ⟨rfl, h⟩) | ⟨⟨rfl, rfl⟩, h⟩
      · exact .inl h
      · exact .inr ⟨rfl, ih (.inl h)⟩
      · exact .inr ⟨rfl, ih (.inr ⟨rfl, h⟩)⟩

theorem digitChar_lt {d e : Nat} (hde : d < e) (he : e < 16) :
    Nat.digitChar d < Nat.digitChar e := by
  have hall : ∀ e < 16, ∀ d < e, Nat.digitChar d < Nat.digitChar e := by decide
  exact hall e he d hde

theorem padded_lt (hb : b ≤ 16) (hmn : m < n) (hn : n < b ^ w) :
    padded b w m < padded b w n := by
  induction w generalizing m n with
  | zero =>
    rw [Nat.pow_zero] at hn
    omega
  | succ w ih =>
    rw [Nat.pow_succ] at hn
    have hpos : 0 < b := by
      rcases Nat.eq_zero_or_pos b with rfl | h
      · omega
      · exact h
    have hdiv : n / b < b ^ w := Nat.div_lt_of_lt_mul (by rwa [Nat.mul_comm] at hn)
    rw [padded, padded]
    apply append_lt_append (by simp)
    rcases Nat.lt_or_eq_of_le (Nat.div_le_div_right (c := b) (Nat.le_of_lt hmn)) with hlt | heq
    · exact .inl (ih hlt hdiv)
    · refine .inr ⟨by rw [heq], ?_⟩
      have hm' := Nat.div_add_mod m b
      have hn' := Nat.div_add_mod n b
      rw [heq] at hm'
      have hmod : n % b < 16 := Nat.lt_of_lt_of_le (Nat.mod_lt n hpos) hb
      rw [List.cons_lt_cons_iff]
      exact .inl (digitChar_lt (by omega) hmod)

/-- A numeral of fixed width decides before what follows it. -/
theorem padded_append_lt {cs ds : List Char} {p : Prop} (hb : b ≤ 16) (hn : n < b ^ w)
    (h : m < n ∨ m = n ∧ p) (hp : p → cs < ds) : padded b w m ++ cs < padded b w n ++ ds := by
  apply append_lt_append (by simp)
  rcases h with h | ⟨rfl, h⟩
  · exact .inl (padded_lt hb h hn)
  · exact .inr ⟨rfl, hp h⟩

end Digits
