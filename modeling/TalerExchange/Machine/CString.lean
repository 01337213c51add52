import Mathlib.Data.List.Basic
import Mathlib.Tactic.SplitIfs

/-!
# C strings

The functions of `string.h` on a string given as the list of its characters before the terminator, with
positions for pointers, in the C locale.

* `strchr`, `strrchr`, `strndup`, `samePrefixIgnoringCase`, `sameIgnoringCase`;
* `strchr_eq_some_iff`, `strchr_eq_none_iff`: what a position that was found says;
* `afterLast`, `drop_strrchr`: what follows the last position;
* `count_map_toLower`: the case does not matter to other characters.
-/

namespace TalerExchange

/-- The first position of `c` from `i` on. -/
def strchr (s : List Char) (i : ℕ) (c : Char) : Option ℕ :=
  ((s.drop i).findIdx? (· = c)).map (i + ·)

/-- The last position of `c`. -/
def strrchr (s : List Char) (c : Char) : Option ℕ :=
  (s.reverse.findIdx? (· = c)).map (s.length - 1 - ·)

/-- `n` characters from `i` on. -/
def strndup (s : List Char) (i n : ℕ) : List Char := (s.drop i).take n

/-- `strcasecmp` finds no difference. -/
def sameIgnoringCase (s t : List Char) : Bool := s.map Char.toLower = t.map Char.toLower

/-- `strncasecmp (&s[i], t, strlen (t))` finds no difference. -/
def samePrefixIgnoringCase (s : List Char) (i : ℕ) (t : List Char) : Bool :=
  sameIgnoringCase (strndup s i t.length) t

theorem strchr_eq_some {s : List Char} {i k : ℕ} {c : Char} (h : strchr s i c = some k) :
    i ≤ k ∧ ∃ rest, s.drop i = strndup s i (k - i) ++ c :: rest := by
  unfold strchr at h
  obtain ⟨j, hj, hk⟩ := Option.map_eq_some_iff.1 h
  obtain ⟨hlt, hc, -⟩ := List.findIdx?_eq_some_iff_getElem.1 hj
  subst hk
  refine ⟨Nat.le_add_right i j, (s.drop i).drop (j + 1), ?_⟩
  rw [Nat.add_sub_cancel_left, strndup, ← of_decide_eq_true hc, ← List.drop_eq_getElem_cons hlt,
    List.take_append_drop]

/-- A position is found exactly if the character is there. -/
theorem strchr_isSome {s : List Char} {i : ℕ} {c : Char} :
    (strchr s i c).isSome = true ↔ c ∈ s.drop i := by
  unfold strchr
  rw [Option.isSome_map, List.findIdx?_isSome, List.any_eq_true]
  constructor
  · rintro ⟨x, hx, hc⟩
    exact of_decide_eq_true hc ▸ hx
  · intro h
    exact ⟨c, h, decide_eq_true rfl⟩

theorem findIdx?_append_cons {c : Char} {b rest : List Char} (h : c ∉ b) :
    (b ++ c :: rest).findIdx? (· = c) = some b.length := by
  have hnone : b.findIdx? (· = c) = none :=
    List.findIdx?_eq_none_iff.mpr fun x hx => decide_eq_false fun hc => h (hc ▸ hx)
  rw [List.findIdx?_append, hnone, List.findIdx?_cons, decide_eq_true rfl, if_pos rfl]
  exact congrArg some (Nat.zero_add _)

/-- A position is that of the first such character. -/
theorem strchr_eq_some_iff {s : List Char} {i k : ℕ} {c : Char} : strchr s i c = some k ↔
    ∃ b rest, s.drop i = b ++ c :: rest ∧ c ∉ b ∧ k = i + b.length := by
  constructor
  · intro h
    have hmem : c ∈ s.drop i := strchr_isSome.mp (h ▸ rfl)
    obtain ⟨b, rest, hdrop, hb⟩ := List.eq_append_cons_of_mem hmem
    refine ⟨b, rest, hdrop, hb, ?_⟩
    unfold strchr at h
    rw [hdrop, findIdx?_append_cons hb] at h
    exact (Option.some.inj h).symm
  · rintro ⟨b, rest, hdrop, hb, rfl⟩
    unfold strchr
    rw [hdrop, findIdx?_append_cons hb]
    rfl

theorem strchr_eq_none_iff {s : List Char} {i : ℕ} {c : Char} :
    strchr s i c = none ↔ c ∉ s.drop i := by
  rw [← strchr_isSome, Bool.not_eq_true, Option.isSome_eq_false_iff, Option.isNone_iff_eq_none]

/-- What follows the last `c`; everything, if there is none. -/
def afterLast (c : Char) : List Char → List Char
  | [] => []
  | x :: s => if c ∈ s then afterLast c s else if x = c then s else x :: s

theorem afterLast_eq_self {c : Char} {s : List Char} (h : c ∉ s) : afterLast c s = s := by
  cases s with
  | nil => rfl
  | cons x s =>
    have hs : c ∉ s := fun hmem => h (List.mem_cons_of_mem x hmem)
    have hx : x ≠ c := fun hc => h (hc ▸ List.mem_cons_self)
    rw [afterLast, if_neg hs, if_neg hx]

theorem afterLast_append (c : Char) (a b : List Char) :
    afterLast c (a ++ c :: b) = afterLast c b := by
  induction a with
  | nil =>
    rw [List.nil_append, afterLast, if_pos (rfl : c = c)]
    split_ifs with hb
    · rfl
    · exact (afterLast_eq_self hb).symm
  | cons x a ih =>
    rw [List.cons_append, afterLast, if_pos (List.mem_append_right _ List.mem_cons_self), ih]

/-- The last `c` splits a string. -/
theorem exists_afterLast {c : Char} {s : List Char} (h : c ∈ s) :
    ∃ a, s = a ++ c :: afterLast c s ∧ c ∉ afterLast c s := by
  induction s with
  | nil => exact absurd h List.not_mem_nil
  | cons x s ih =>
    rw [afterLast]
    by_cases hs : c ∈ s
    · obtain ⟨a, ha, hlast⟩ := ih hs
      rw [if_pos hs]
      exact ⟨x :: a, congrArg (x :: ·) ha, hlast⟩
    · have hx : c = x := (List.mem_cons.mp h).resolve_right hs
      rw [if_neg hs, if_pos hx.symm]
      exact ⟨[], congrArg (· :: s) hx.symm, hs⟩

/-- What follows the position of the last `c`. -/
theorem drop_strrchr {c : Char} {s : List Char} (h : c ∈ s) :
    s.drop ((strrchr s c).getD 0 + 1) = afterLast c s := by
  obtain ⟨a, ha, hlast⟩ := exists_afterLast h
  generalize afterLast c s = b at ha hlast ⊢
  have hpos : strrchr s c = some a.length := by
    unfold strrchr
    rw [ha, List.reverse_append, List.reverse_cons, List.append_assoc, List.singleton_append,
      findIdx?_append_cons fun hmem => hlast (List.mem_reverse.mp hmem), Option.map_some,
      List.length_reverse, List.length_append, List.length_cons]
    congr 1
    omega
  rw [hpos, Option.getD_some, ha, ← List.drop_drop, List.drop_left]
  rfl

/-- Lower case makes letters only. -/
theorem toLower_eq_iff {c d : Char} (hd : d.toNat < 'A'.toNat) : c.toLower = d ↔ c = d := by
  have hA : 'A'.toNat = 65 := rfl
  rw [hA] at hd
  unfold Char.toLower
  split_ifs with hup
  · have h₀ : 65 ≤ c.toNat := hup.1
    have h₁ : c.toNat ≤ 90 := hup.2
    refine iff_of_false (fun h => ?_) (fun h => by rw [h] at h₀; omega)
    have hv : (c.val + 32).toNat = d.toNat := congrArg Char.toNat h
    rw [UInt32.toNat_add, Nat.mod_eq_of_lt] at hv
    · change c.toNat + 32 = d.toNat at hv
      omega
    · change c.toNat + 32 < 2 ^ 32
      omega
  · exact Iff.rfl

theorem count_map_toLower {d : Char} (hd : d.toNat < 'A'.toNat) (s : List Char) :
    (s.map Char.toLower).count d = s.count d := by
  induction s with
  | nil => rfl
  | cons c s ih =>
    rw [List.map_cons, List.count_cons, List.count_cons, ih]
    refine congrArg _ (if_congr ?_ rfl rfl)
    rw [beq_iff_eq, beq_iff_eq, toLower_eq_iff hd]

end TalerExchange
