import Mathlib
import TalerExchange.Payto.Normalize

/-!
# What normal forms identify

Two URIs with the method `iban` or `x-taler-bank` have the same normal form if they denote the same
account. The segments of the URI between its slashes tell how each loop changes it.

* `paytoSegments`, `SamePaytoAccount`: the account that a URI denotes, by its segments;
* `splitOn_lowerBefore`, `ibanWithoutBic_head`, `ibanWithoutBic_tail`: the loops on segments;
* **`paytoNormalize_eq_iff`**: equal normal forms are those of the same account.
-/

namespace TalerExchange

/-! ## Accounts -/

/-- The segments before the query: `payto:`, nothing, the method, and those behind it. -/
def paytoSegments (uri : List Char) : List (List Char) := (beforeQuery uri).splitOn '/'

/-- The same method, and for `iban` the same last segment, up to case; else the same host up to case
and the same segments behind it. -/
def SamePaytoAccount (u v : List Char) : Prop :=
  sameIgnoringCase ((paytoSegments u).getD 2 []) ((paytoSegments v).getD 2 []) = true ∧
    if sameIgnoringCase ((paytoSegments u).getD 2 []) "iban".toList = true then
      sameIgnoringCase ((paytoSegments u).getLastD []) ((paytoSegments v).getLastD []) = true
    else
      sameIgnoringCase ((paytoSegments u).getD 3 []) ((paytoSegments v).getD 3 []) = true ∧
        (paytoSegments u).drop 4 = (paytoSegments v).drop 4

/-- The method of the URI, as `TALER_payto_get_method` finds it, is the given one up to case. -/
def HasMethod (uri : List Char) (name : String) : Prop :=
  ∃ method, paytoGetMethod uri = some method ∧ sameIgnoringCase method name.toList = true

/-- Lower case, without slashes and question marks. -/
def plainName (name : String) : Bool :=
  name.toList.all fun c => c != '/' && c != '?' && c.toLower == c

theorem plainName_iban : plainName "iban" = true := by decide

theorem plainName_xTalerBank : plainName "x-taler-bank" = true := by decide

theorem plainName_mem {name : String} (h : plainName name = true) {c : Char}
    (hc : c ∈ name.toList) : c ≠ '/' ∧ c ≠ '?' ∧ c.toLower = c := by
  have hall := List.all_eq_true.mp h c hc
  simpa only [Bool.and_eq_true, bne_iff_ne, beq_iff_eq, and_assoc] using hall

/-! ## Case -/

theorem map_toUpper_eq_iff {s t : List Char} :
    s.map Char.toUpper = t.map Char.toUpper ↔ s.map Char.toLower = t.map Char.toLower := by
  have hlower : ∀ l : List Char, (l.map Char.toUpper).map Char.toLower = l.map Char.toLower := by
    intro l
    rw [List.map_map]
    exact List.map_congr_left fun c _ => Char.toLower_toUpper_eq_toLower c
  have hupper : ∀ l : List Char, (l.map Char.toLower).map Char.toUpper = l.map Char.toUpper := by
    intro l
    rw [List.map_map]
    exact List.map_congr_left fun c _ => Char.toUpper_toLower_eq_toUpper c
  constructor <;> intro h
  · rw [← hlower s, h, hlower]
  · rw [← hupper s, h, hupper]

theorem toLower_eq_slash {c : Char} : c.toLower = '/' ↔ c = '/' := toLower_eq_iff (by decide)

theorem slash_mem_map_toLower {s : List Char} : '/' ∈ s.map Char.toLower ↔ '/' ∈ s := by
  simp only [List.mem_map, toLower_eq_slash, exists_eq_right]

theorem slash_mem_map_toUpper {s : List Char} : '/' ∈ s.map Char.toUpper ↔ '/' ∈ s := by
  have hmap : (s.map Char.toUpper).map Char.toLower = s.map Char.toLower := by
    rw [List.map_map]
    exact List.map_congr_left fun c _ => Char.toLower_toUpper_eq_toLower c
  rw [← slash_mem_map_toLower, hmap, slash_mem_map_toLower]

/-! ## Segments -/

theorem slash_not_mem_of_mem_splitOn {s g : List Char} (h : g ∈ s.splitOn '/') : '/' ∉ g := by
  induction s generalizing g with
  | nil =>
    rw [List.splitOn_nil, List.mem_singleton] at h
    rw [h]
    exact List.not_mem_nil
  | cons c s ih =>
    rw [List.splitOn_cons_eq_if_modifyHead] at h
    split at h
    · rcases List.mem_cons.mp h with rfl | h
      · exact List.not_mem_nil
      · exact ih h
    · next hc =>
      obtain ⟨g', gs, hs⟩ := List.exists_cons_of_ne_nil (List.splitOn_ne_nil '/' s)
      rw [hs, List.modifyHead_cons] at h
      rcases List.mem_cons.mp h with rfl | h
      · intro hmem
        rcases List.mem_cons.mp hmem with rfl | hmem
        · exact hc (beq_self_eq_true _)
        · exact ih (hs ▸ List.mem_cons_self) hmem
      · exact ih (hs ▸ List.mem_cons_of_mem _ h)

theorem length_splitOn (s : List Char) : (s.splitOn '/').length = s.count '/' + 1 := by
  induction s with
  | nil => rfl
  | cons c s ih =>
    rw [List.splitOn_cons_eq_if_modifyHead, List.count_cons]
    split
    · rw [List.length_cons, ih]
    · rw [List.length_modifyHead, ih, Nat.add_zero]

/-! ## The loops on segments -/

/-- Lower case in the segments before the slash number `n`. -/
theorem splitOn_lowerBefore (n sc : ℕ) (s : List Char) :
    (lowerBefore n sc s).splitOn '/' =
      ((s.splitOn '/').take (n - sc)).map (·.map Char.toLower) ++ (s.splitOn '/').drop (n - sc) := by
  induction s generalizing sc with
  | nil =>
    rw [lowerBefore, List.splitOn_nil]
    cases n - sc <;> simp
  | cons c s ih =>
    by_cases hc : c = '/'
    · subst hc
      have hslash : ∀ k, (if k < n then Char.toLower '/' else '/') = '/' := fun k => by
        split <;> rfl
      rw [lowerBefore]
      simp only [if_true]
      rw [hslash, List.splitOn_cons_eq_if_modifyHead, List.splitOn_cons_eq_if_modifyHead,
        if_pos (beq_self_eq_true _), if_pos (beq_self_eq_true _), ih, Nat.sub_add_eq]
      cases n - sc <;> rfl
    · have hout : ¬ ((if sc < n then c.toLower else c) == '/') = true := by
        rw [beq_iff_eq]
        split
        · exact mt toLower_eq_slash.mp hc
        · exact hc
      rw [lowerBefore]
      simp only [if_neg hc]
      rw [List.splitOn_cons_eq_if_modifyHead, List.splitOn_cons_eq_if_modifyHead, if_neg hout,
        if_neg (mt beq_iff_eq.mp hc), ih]
      obtain ⟨g, gs, hs⟩ := List.exists_cons_of_ne_nil (List.splitOn_ne_nil '/' s)
      rw [hs]
      rcases Nat.lt_or_ge sc n with hlt | hge
      · obtain ⟨k, hk⟩ := Nat.exists_eq_add_of_lt hlt
        rw [show n - sc = k + 1 by omega]
        simp only [if_pos hlt]
        rfl
      · rw [Nat.sub_eq_zero_of_le hge]
        simp only [if_neg (Nat.not_lt.mpr hge)]
        rfl

section Iban

variable {b : Bool} {g t : List Char}

theorem ibanWithoutBic_cons (sc : ℕ) (c : Char) (s : List Char) :
    ibanWithoutBic b sc (c :: s) =
      let sc := if c = '/' then sc + 1 else sc
      if sc ≤ 2 then c.toLower :: ibanWithoutBic b sc s
      else if sc = 3 then
        if b then ibanWithoutBic b sc s else c.toUpper :: ibanWithoutBic b sc s
      else if sc = 4 then c.toUpper :: ibanWithoutBic b sc s
      else ibanWithoutBic b sc s := rfl

theorem ibanWithoutBic_lower (hg : '/' ∉ g) {sc : ℕ} (hsc : sc ≤ 2) :
    ibanWithoutBic b sc (g ++ t) = g.map Char.toLower ++ ibanWithoutBic b sc t := by
  induction g with
  | nil => rfl
  | cons c g ih =>
    obtain ⟨hc, hg⟩ := not_or.mp (mt List.mem_cons.mpr hg)
    rw [List.cons_append, ibanWithoutBic_cons]
    simp only [if_neg (Ne.symm hc), if_pos hsc, ih hg]
    rfl

theorem ibanWithoutBic_bic (hg : '/' ∉ g) :
    ibanWithoutBic true 3 (g ++ t) = ibanWithoutBic true 3 t := by
  induction g with
  | nil => rfl
  | cons c g ih =>
    obtain ⟨hc, hg⟩ := not_or.mp (mt List.mem_cons.mpr hg)
    rw [List.cons_append, ibanWithoutBic_cons]
    simp only [if_neg (Ne.symm hc)]
    exact ih hg

theorem ibanWithoutBic_upper (hg : '/' ∉ g) {sc : ℕ} (hsc : sc = 4 ∨ sc = 3 ∧ b = false) :
    ibanWithoutBic b sc g = g.map Char.toUpper := by
  induction g with
  | nil => rfl
  | cons c g ih =>
    obtain ⟨hc, hg⟩ := not_or.mp (mt List.mem_cons.mpr hg)
    rw [ibanWithoutBic_cons]
    simp only [if_neg (Ne.symm hc), ih hg]
    rcases hsc with rfl | ⟨rfl, rfl⟩ <;> rfl

theorem ibanWithoutBic_head {x₀ x₁ x₂ : List Char} (h₀ : '/' ∉ x₀) (h₁ : '/' ∉ x₁)
    (h₂ : '/' ∉ x₂) : ibanWithoutBic b 0 (x₀ ++ '/' :: (x₁ ++ '/' :: (x₂ ++ '/' :: t))) =
      x₀.map Char.toLower ++ '/' :: (x₁.map Char.toLower ++ '/' ::
        (x₂.map Char.toLower ++ ibanWithoutBic b 2 ('/' :: t))) := by
  rw [ibanWithoutBic_lower h₀ (by omega), ibanWithoutBic_cons]
  simp only [if_true, Nat.zero_add, Nat.reduceLeDiff]
  rw [ibanWithoutBic_lower h₁ (by omega), ibanWithoutBic_cons]
  simp only [if_true, Nat.reduceAdd, Nat.reduceLeDiff]
  rw [ibanWithoutBic_lower h₂ le_rfl]
  rfl

/-- The last segment, with a BIC before it or not. -/
theorem ibanWithoutBic_tail {x₃ : List Char} (h₃ : '/' ∉ x₃) :
    ibanWithoutBic false 2 ('/' :: x₃) = '/' :: x₃.map Char.toUpper ∧
      ∀ x₄, '/' ∉ x₄ →
        ibanWithoutBic true 2 ('/' :: (x₃ ++ '/' :: x₄)) = '/' :: x₄.map Char.toUpper := by
  refine ⟨?_, fun x₄ h₄ => ?_⟩
  · rw [ibanWithoutBic_cons]
    simp only [if_true, Nat.reduceAdd, Nat.reduceLeDiff, if_false]
    rw [ibanWithoutBic_upper h₃ (Or.inr ⟨rfl, rfl⟩)]
    rfl
  · rw [ibanWithoutBic_cons]
    simp only [if_true, Nat.reduceAdd, Nat.reduceLeDiff, if_false]
    rw [ibanWithoutBic_bic h₃, ibanWithoutBic_cons]
    simp only [if_true, Nat.reduceAdd, Nat.reduceLeDiff, if_false, Nat.reduceEqDiff]
    rw [ibanWithoutBic_upper h₄ (Or.inl rfl)]
    rfl

/-- **The normal form of an IBAN**: the first three segments in lower case, the last in upper
case. -/
theorem normalizePaytoIban_segments {s r : List Char} (h : normalizePaytoIban s = some r) :
    ∃ x₀ x₁ x₂ y ys, s.splitOn '/' = x₀ :: x₁ :: x₂ :: y :: ys ∧
      r.splitOn '/' = [x₀.map Char.toLower, x₁.map Char.toLower, x₂.map Char.toLower,
        ((y :: ys).getLastD []).map Char.toUpper] := by
  unfold normalizePaytoIban at h
  simp only at h
  split at h
  · cases h
  next hsc =>
  cases h
  have hlen := length_splitOn s
  have hfree : ∀ g ∈ s.splitOn '/', '/' ∉ g := fun _ => slash_not_mem_of_mem_splitOn
  have hjoin : ['/'].intercalate (s.splitOn '/') = s := List.intercalate_splitOn '/'
  have hback : ∀ l₀ l₁ l₂ l : List Char, '/' ∉ l₀ → '/' ∉ l₁ → '/' ∉ l₂ → '/' ∉ l →
      (l₀.map Char.toLower ++ '/' :: (l₁.map Char.toLower ++ '/' ::
        (l₂.map Char.toLower ++ '/' :: l.map Char.toUpper))).splitOn '/' =
      [l₀.map Char.toLower, l₁.map Char.toLower, l₂.map Char.toLower, l.map Char.toUpper] := by
    intro l₀ l₁ l₂ l h₀ h₁ h₂ hl
    rw [List.splitOn_append_cons_self_of_not_mem (mt slash_mem_map_toLower.mp h₀),
      List.splitOn_append_cons_self_of_not_mem (mt slash_mem_map_toLower.mp h₁),
      List.splitOn_append_cons_self_of_not_mem (mt slash_mem_map_toLower.mp h₂),
      List.splitOn_eq_singleton (mt slash_mem_map_toUpper.mp hl)]
  match hs : s.splitOn '/' with
  | [] | [_] | [_, _] | [_, _, _] | _ :: _ :: _ :: _ :: _ :: _ :: _ =>
    rw [hs] at hlen
    simp only [List.length_cons, List.length_nil] at hlen
    omega
  | [x₀, x₁, x₂, x₃] =>
    rw [hs] at hfree hjoin hlen
    simp only [List.length_cons, List.length_nil] at hlen
    simp only [List.forall_mem_cons] at hfree
    obtain ⟨h₀, h₁, h₂, h₃, -⟩ := hfree
    have hs' : s = x₀ ++ '/' :: (x₁ ++ '/' :: (x₂ ++ '/' :: x₃)) := by
      rw [← hjoin]
      simp [List.intercalate]
    refine ⟨x₀, x₁, x₂, x₃, [], rfl, ?_⟩
    rw [decide_eq_false (by omega : ¬ s.count '/' = 4), hs', ibanWithoutBic_head h₀ h₁ h₂,
      (ibanWithoutBic_tail h₃).1]
    exact hback x₀ x₁ x₂ x₃ h₀ h₁ h₂ h₃
  | [x₀, x₁, x₂, x₃, x₄] =>
    rw [hs] at hfree hjoin hlen
    simp only [List.length_cons, List.length_nil] at hlen
    simp only [List.forall_mem_cons] at hfree
    obtain ⟨h₀, h₁, h₂, h₃, h₄, -⟩ := hfree
    have hs' : s = x₀ ++ '/' :: (x₁ ++ '/' :: (x₂ ++ '/' :: (x₃ ++ '/' :: x₄))) := by
      rw [← hjoin]
      simp [List.intercalate]
    refine ⟨x₀, x₁, x₂, x₃, [x₄], rfl, ?_⟩
    rw [decide_eq_true (by omega : s.count '/' = 4), hs', ibanWithoutBic_head h₀ h₁ h₂,
      (ibanWithoutBic_tail h₃).2 x₄ h₄]
    exact hback x₀ x₁ x₂ x₄ h₀ h₁ h₂ h₄

end Iban

/-! ## Normal forms -/

/-- The segments of a URI with the method. -/
theorem paytoSegments_of_hasMethod {uri : List Char} {name : String} (h : HasMethod uri name)
    (hname : plainName name = true) : ∃ x₀ x₁ x₂ y ys,
      paytoSegments uri = x₀ :: x₁ :: x₂ :: y :: ys ∧ x₀.map Char.toLower = "payto:".toList ∧
      x₁ = [] ∧ x₂.map Char.toLower = name.toList := by
  obtain ⟨method, hm, hsame⟩ := h
  obtain ⟨start, rest, rfl, hs⟩ := paytoGetMethod_eq_some hm
  have hlower : name.toList.map Char.toLower = name.toList :=
    (List.map_congr_left fun c hc => (plainName_mem hname hc).2.2).trans (List.map_id _)
  have hmethod : method.map Char.toLower = name.toList := (sameIgnoringCase_iff.mp hsame).trans hlower
  have hstart : start.map Char.toLower = "payto:".toList ++ ['/', '/'] :=
    (sameIgnoringCase_iff.mp hs).trans (by decide)
  obtain ⟨x₀, slashes, rfl, h₀, hslashes⟩ := List.map_eq_append_iff.mp hstart
  obtain ⟨c, slashes, rfl, hc, hslashes⟩ := List.map_eq_cons_iff.mp hslashes
  obtain ⟨d, slashes, rfl, hd, hslashes⟩ := List.map_eq_cons_iff.mp hslashes
  obtain rfl := List.map_eq_nil_iff.mp hslashes
  obtain rfl := toLower_eq_slash.mp hc
  obtain rfl := toLower_eq_slash.mp hd
  have hfree₀ : '/' ∉ x₀ := by
    rw [← slash_mem_map_toLower, h₀]
    decide
  have hfree : '/' ∉ method := by
    rw [← slash_mem_map_toLower, hmethod]
    exact fun hmem => (plainName_mem hname hmem).1 rfl
  have hquery : ∀ c ∈ x₀ ++ ['/', '/'] ++ method, decide (c ≠ '?') = true := by
    rintro c hc
    refine decide_eq_true ?_
    rintro rfl
    rcases List.mem_append.mp hc with hc | hc
    · have hmem := List.mem_map_of_mem (f := Char.toLower) hc
      rw [hstart] at hmem
      exact absurd hmem (by decide)
    · have hmem := List.mem_map_of_mem (f := Char.toLower) hc
      rw [hmethod] at hmem
      exact (plainName_mem hname hmem).2.1 rfl
  obtain ⟨y, ys, hys⟩ := List.exists_cons_of_ne_nil
    (List.splitOn_ne_nil '/' (rest.takeWhile (· ≠ '?')))
  refine ⟨x₀, [], method, y, ys, ?_, h₀, rfl, hmethod⟩
  show (beforeQuery _).splitOn '/' = _
  rw [beforeQuery_eq, List.takeWhile_append_of_pos hquery, List.takeWhile_cons_of_pos (by decide)]
  simp only [List.append_assoc, List.cons_append, List.nil_append]
  rw [List.splitOn_append_cons_self_of_not_mem hfree₀, List.splitOn_cons_eq_if_modifyHead,
    if_pos (beq_self_eq_true _), List.splitOn_append_cons_self_of_not_mem hfree, hys]

/-- The normal form for `iban`: the last segment in upper case. -/
theorem paytoNormalize_iban {uri r : List Char} (hm : HasMethod uri "iban")
    (h : paytoNormalize uri = some r) :
    r.splitOn '/' = ["payto:".toList, [], "iban".toList,
      ((paytoSegments uri).getLastD []).map Char.toUpper] := by
  obtain ⟨x₀, x₁, x₂, y, ys, hseg, h₀, h₁, h₂⟩ := paytoSegments_of_hasMethod hm plainName_iban
  obtain ⟨method, hmethod, hiban⟩ := hm
  have hbank : ¬ sameIgnoringCase method "x-taler-bank".toList = true := by
    intro hbank
    rw [sameIgnoringCase_iff] at hiban hbank
    exact absurd (hiban.symm.trans hbank) (by decide)
  unfold paytoNormalize at h
  split at h
  · cases h
  rw [hmethod] at h
  simp only at h
  rw [if_neg hbank, if_pos hiban] at h
  obtain ⟨z₀, z₁, z₂, z, zs, hsplit, hr⟩ := normalizePaytoIban_segments h
  have hsame : z₀ :: z₁ :: z₂ :: z :: zs = x₀ :: x₁ :: x₂ :: y :: ys := hsplit.symm.trans hseg
  obtain ⟨rfl, rfl, rfl, rfl, rfl⟩ := by simpa only [List.cons.injEq] using hsame
  rw [hr, hseg, h₀, h₁, h₂]
  rfl

/-- The normal form for `x-taler-bank`: the host in lower case, what is behind it as it was. -/
theorem paytoNormalize_xTalerBank {uri r : List Char} (hm : HasMethod uri "x-taler-bank")
    (h : paytoNormalize uri = some r) :
    r.splitOn '/' = "payto:".toList :: [] :: "x-taler-bank".toList ::
      ((paytoSegments uri).getD 3 []).map Char.toLower :: (paytoSegments uri).drop 4 := by
  obtain ⟨x₀, x₁, x₂, y, ys, hseg, h₀, h₁, h₂⟩ := paytoSegments_of_hasMethod hm plainName_xTalerBank
  obtain ⟨method, hmethod, hbank⟩ := hm
  unfold paytoNormalize at h
  split at h
  · cases h
  rw [hmethod] at h
  simp only at h
  rw [if_pos hbank] at h
  cases h
  have hsplit : (beforeQuery uri).splitOn '/' = x₀ :: x₁ :: x₂ :: y :: ys := hseg
  rw [normalizePaytoXTalerBank, splitOn_lowerBefore, hsplit, hseg, ← h₀, ← h₂, h₁]
  rfl

theorem eq_of_splitOn {s t : List Char} (h : s.splitOn '/' = t.splitOn '/') : s = t := by
  have hs : ['/'].intercalate (s.splitOn '/') = s := List.intercalate_splitOn '/'
  have ht : ['/'].intercalate (t.splitOn '/') = t := List.intercalate_splitOn '/'
  rw [← hs, h, ht]

/-- **Normal forms identify accounts.** -/
theorem paytoNormalize_eq_iff {u v a b : List Char}
    (hu : HasMethod u "iban" ∨ HasMethod u "x-taler-bank")
    (hv : HasMethod v "iban" ∨ HasMethod v "x-taler-bank")
    (ha : paytoNormalize u = some a) (hb : paytoNormalize v = some b) :
    a = b ↔ SamePaytoAccount u v := by
  have hsplit : a = b ↔ a.splitOn '/' = b.splitOn '/' :=
    ⟨congrArg _, eq_of_splitOn⟩
  have hthird : ∀ {w : List Char} {name : String}, HasMethod w name →
      plainName name = true →
      ((paytoSegments w).getD 2 []).map Char.toLower = name.toList := by
    intro w name hw hname
    obtain ⟨x₀, x₁, x₂, y, ys, hseg, -, -, h₂⟩ := paytoSegments_of_hasMethod hw hname
    rw [hseg]
    exact h₂
  rw [hsplit]
  show _ ↔ _ ∧ if _ then _ else _
  simp only [sameIgnoringCase_iff]
  rcases hu with hu | hu <;> rcases hv with hv | hv
  · rw [paytoNormalize_iban hu ha, paytoNormalize_iban hv hb, hthird hu plainName_iban,
      hthird hv plainName_iban, if_pos (by decide)]
    simp only [List.cons.injEq, and_true, true_and]
    exact map_toUpper_eq_iff
  · rw [paytoNormalize_iban hu ha, paytoNormalize_xTalerBank hv hb, hthird hu plainName_iban,
      hthird hv plainName_xTalerBank]
    exact iff_of_false (by simp) (by simp)
  · rw [paytoNormalize_xTalerBank hu ha, paytoNormalize_iban hv hb, hthird hu plainName_xTalerBank,
      hthird hv plainName_iban]
    exact iff_of_false (by simp) (by simp)
  · rw [paytoNormalize_xTalerBank hu ha, paytoNormalize_xTalerBank hv hb,
      hthird hu plainName_xTalerBank, hthird hv plainName_xTalerBank, if_neg (by decide)]
    simp only [List.cons.injEq, true_and]

/-- The account with a BIC and without. -/
theorem paytoNormalize_eq_bic :
    "payto://iban/DE75512108001245126199".toList = "payto://iban/DE75512108001245126199".toList ↔
      SamePaytoAccount "PAYTO://IBAN/bic/DE75512108001245126199?receiver-name=A".toList
        "payto://iban/DE75512108001245126199?receiver-name=B".toList :=
  paytoNormalize_eq_iff (Or.inl ⟨"IBAN".toList, by decide, by decide⟩)
    (Or.inl ⟨"iban".toList, by decide, by decide⟩) (by decide +kernel) (by decide +kernel)

end TalerExchange
