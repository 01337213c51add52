import Mathlib.Data.List.TakeWhile
import TalerExchange.Machine.Digits
import TalerExchange.Payto.Normalize

/-!
# What is validated is what is used

The validator takes the IBAN after the last slash of the URI, whatever follows the query begins; the
account at a bank is what follows the last slash before the query, which may be nothing, and the
loop over the host counts neither colons nor the characters of the name.

* `xtalerbankAccountFromPayto`: the account that is extracted;
* `HasParameter`, `XTalerBankTarget`, `PaytoSound`: what is to hold of a URI that is accepted;
* `lastSegment_eq`, `scanHost_ok`: the loops over the path and the host;
* **`paytoSound_iff`**: when it holds;
* `not_paytoSound`: a slash in the query.
-/

namespace TalerExchange

/-! ## Targets -/

/-- The URIs of banks begin with this. -/
def xtalerbankPrefix : List Char := "payto://x-taler-bank/".toList

/-- `TALER_xtalerbank_account_from_payto`, `none` for `NULL`. -/
def xtalerbankAccountFromPayto (uri : List Char) : Option (List Char) :=
  if ¬ samePrefixIgnoringCase uri 0 xtalerbankPrefix then none
  else match strchr uri xtalerbankPrefix.length '/' with
    | none => none
    | some beg =>
      let e := (strchr uri (beg + 1) '?').getD uri.length
      let last := lastSegment uri e uri.length (beg + 1)
      some (strndup uri last (e - last))

/-- The method is `iban`. -/
def IsIban (uri : List Char) : Prop := samePrefixIgnoringCase uri 0 "payto://iban/".toList = true

/-- The method is `x-taler-bank`. -/
def IsXTalerBank (uri : List Char) : Prop := samePrefixIgnoringCase uri 0 xtalerbankPrefix = true

/-- The query has a parameter with this name: it follows the question mark, or an ampersand. -/
def HasParameter (uri name : List Char) : Prop :=
  ∃ front rest, uri = front ++ rest ∧ '?' ∈ front ∧
    ((∃ path, front = path ++ ['?'] ∧ '?' ∉ path) ∨ front.getLast? = some '&') ∧
    sameIgnoringCase (rest.take name.length) name = true

/-- The host and the port of the URI of a bank. -/
def hostPart (uri : List Char) : List Char :=
  ((beforeQuery uri).drop xtalerbankPrefix.length).takeWhile (· ≠ '/')

/-- The target of a bank: a name of legal characters, perhaps a port, and an account, which is the
one that is extracted. -/
structure XTalerBankTarget (uri : List Char) : Prop where
  host : ∃ name port, hostPart uri = name ++ port ∧ name ≠ [] ∧
    (∀ c ∈ name, domainCharacter c = true ∨ c = '.') ∧
    (port = [] ∨ ∃ digits, port = ':' :: digits ∧ digits ≠ [] ∧ ∀ c ∈ digits, c.isDigit = true)
  path : '/' ∈ (beforeQuery uri).drop xtalerbankPrefix.length
  account_ne_nil : afterLast '/' (beforeQuery uri) ≠ []
  account : xtalerbankAccountFromPayto uri = some (afterLast '/' (beforeQuery uri))

/-- What is to hold of a URI that is accepted. -/
structure PaytoSound (uri : List Char) : Prop where
  receiver : HasParameter uri "receiver-name=".toList
  iban : IsIban uri → ibanValidate (afterLast '/' (beforeQuery uri)) = none
  xtalerbank : IsXTalerBank uri → XTalerBankTarget uri

/-! ## Parameters -/

section Key

variable {uri searchKey value : List Char}

theorem paytoGetKeyFrom_sound {n key : ℕ} (hkey : uri[key]? = some '?' ∨ uri[key]? = some '&')
    (h : paytoGetKeyFrom uri searchKey n key = some value) : ∃ j, key ≤ j ∧
      (j = key ∨ uri[j]? = some '&') ∧ samePrefixIgnoringCase uri (j + 1) searchKey = true := by
  induction n generalizing key with
  | zero => cases h
  | succ n ih =>
    rw [paytoGetKeyFrom] at h
    by_cases hsame : samePrefixIgnoringCase uri (key + 1) searchKey = true
    · exact ⟨key, le_rfl, Or.inl rfl, hsame⟩
    rw [if_neg hsame] at h
    cases hnext : strchr uri (key + 1) '&' with
    | none =>
      rw [hnext] at h
      cases h
    | some next =>
      rw [hnext] at h
      obtain ⟨b, rest, hdrop, -, rfl⟩ := strchr_eq_some_iff.mp hnext
      have hget : uri[key + 1 + b.length]? = some '&' := by
        rw [← List.getElem?_drop, hdrop, List.getElem?_append_right le_rfl, Nat.sub_self]
        rfl
      obtain ⟨j, hle, hwhich, hsame'⟩ := ih (Or.inr hget) h
      refine ⟨j, by omega, Or.inr ?_, hsame'⟩
      rcases hwhich with rfl | hamp
      · exact hget
      · exact hamp

/-- A value that is found belongs to a parameter. -/
theorem hasParameter_of_paytoGetKey (h : paytoGetKey uri searchKey = some value) :
    HasParameter uri searchKey := by
  unfold paytoGetKey at h
  cases hkey : strchr uri 0 '?' with
  | none =>
    rw [hkey] at h
    cases h
  | some key =>
    rw [hkey] at h
    dsimp only at h
    obtain ⟨path, query, hdrop, hpath, rfl⟩ := strchr_eq_some_iff.mp hkey
    rw [List.drop_zero] at hdrop
    rw [Nat.zero_add] at h
    have hget : uri[path.length]? = some '?' := by
      rw [hdrop, List.getElem?_append_right le_rfl, Nat.sub_self]
      rfl
    obtain ⟨j, hle, hwhich, hsame⟩ := paytoGetKeyFrom_sound (Or.inl hget) h
    have hfirst : uri.take (path.length + 1) = path ++ ['?'] := by
      rw [hdrop, List.take_append, List.take_of_length_le (Nat.le_succ _),
        Nat.add_sub_cancel_left]
      rfl
    refine ⟨uri.take (j + 1), uri.drop (j + 1), (List.take_append_drop _ _).symm, ?_, ?_, hsame⟩
    · have hmem : '?' ∈ uri.take (path.length + 1) := by
        rw [hfirst]
        exact List.mem_append_right _ List.mem_cons_self
      exact (List.take_sublist_take_left (by omega)).subset hmem
    · rcases hwhich with rfl | hamp
      · exact Or.inl ⟨path, hfirst, hpath⟩
      · refine Or.inr ?_
        rw [List.take_add_one, hamp, Option.toList_some, List.getLast?_append]
        rfl

end Key

/-! ## The last segment -/

section Segment

variable {uri seg rest : List Char} {beg : ℕ}

/-- The loop over the segments ends with the last one before the query. -/
theorem lastSegment_eq {fuel : ℕ} (hdrop : uri.drop beg = seg ++ rest) (hfuel : seg.length ≤ fuel) :
    ∃ path, seg = path ++ afterLast '/' seg ∧
      lastSegment uri (beg + seg.length) fuel beg = beg + path.length := by
  induction fuel generalizing beg seg with
  | zero =>
    obtain rfl := List.eq_nil_of_length_eq_zero (Nat.le_zero.mp hfuel)
    exact ⟨[], rfl, rfl⟩
  | succ fuel ih =>
    rw [lastSegment]
    by_cases hmem : '/' ∈ seg
    · obtain ⟨a, b, rfl, ha⟩ := List.eq_append_cons_of_mem hmem
      have hfirst : strchr uri beg '/' = some (beg + a.length) := by
        refine strchr_eq_some_iff.mpr ⟨a, b ++ rest, ?_, ha, rfl⟩
        rw [hdrop, List.append_assoc, List.cons_append]
      have hnext : uri.drop (beg + a.length + 1) = b ++ rest := by
        rw [← List.drop_drop, ← List.drop_drop, hdrop, List.append_assoc, List.drop_left]
        rfl
      have hlength : (a ++ '/' :: b).length = a.length + 1 + b.length := by
        rw [List.length_append, List.length_cons]
        omega
      obtain ⟨path, hpath, hloop⟩ := ih hnext (by omega)
      refine ⟨a ++ '/' :: path, ?_, ?_⟩
      · rw [afterLast_append, List.append_assoc, List.cons_append, ← hpath]
      · have hend : beg + (a ++ '/' :: b).length = beg + a.length + 1 + b.length := by omega
        rw [hfirst, hend]
        dsimp only
        rw [if_pos (by omega), hloop, List.length_append, List.length_cons]
        omega
    · refine ⟨[], (afterLast_eq_self hmem).symm, ?_⟩
      cases hnext : strchr uri beg '/' with
      | none => rfl
      | some nxt =>
        obtain ⟨b, c, hdrop', hb, rfl⟩ := strchr_eq_some_iff.mp hnext
        refine if_neg fun hlt => hmem ?_
        have hpre : seg ++ rest = b ++ '/' :: c := hdrop.symm.trans hdrop'
        have hget : (seg ++ rest)[b.length]? = some '/' := by
          rw [hpre, List.getElem?_append_right le_rfl, Nat.sub_self]
          rfl
        rw [List.getElem?_append_left (by omega)] at hget
        exact List.mem_of_getElem? hget

end Segment

/-! ## The host -/

section Host

variable {host rest : List Char} {h h' : HostScan}

theorem scanHost_append (hno : '/' ∉ host) :
    scanHost h (host ++ '/' :: rest) = scanHost h host := by
  induction host generalizing h with
  | nil => rfl
  | cons c host ih =>
    have hc : c ≠ '/' := fun heq => hno (heq ▸ List.mem_cons_self)
    have hrest : '/' ∉ host := fun hmem => hno (List.mem_cons_of_mem c hmem)
    rw [List.cons_append, scanHost, scanHost, if_neg hc, if_neg hc]
    simp only [ih hrest]

theorem isDigit_of_le {c : Char} (hc : '0' ≤ c ∧ c ≤ '9') : c.isDigit = true :=
  Char.isDigit_iff_toNat.mpr ⟨hc.1, hc.2⟩

/-- After a colon there are digits and colons, with a digit where the port is there. -/
theorem scanHost_port (hcolon : h.postColon = true) (hno : '/' ∉ host)
    (hs : scanHost h host = .ok h') : (∀ c ∈ host, c = ':' ∨ c.isDigit = true) ∧
      h'.postColon = true ∧
      (h'.portOk = true → h.portOk = true ∨ ∃ c ∈ host, c.isDigit = true) := by
  induction host generalizing h with
  | nil =>
    cases hs
    exact ⟨fun _ hc => absurd hc List.not_mem_nil, hcolon, Or.inl⟩
  | cons c host ih =>
    have hc : c ≠ '/' := fun heq => hno (heq ▸ List.mem_cons_self)
    have hrest : '/' ∉ host := fun hmem => hno (List.mem_cons_of_mem c hmem)
    rw [scanHost, if_neg hc] at hs
    split_ifs at hs with hcol hdigit
    · obtain ⟨hall, hpost, hport⟩ := ih rfl hrest hs
      refine ⟨List.forall_mem_cons.mpr ⟨Or.inl hcol, hall⟩, hpost, fun hok => ?_⟩
      exact (hport hok).imp_right fun ⟨d, hd, hdd⟩ => ⟨d, List.mem_cons_of_mem c hd, hdd⟩
    · have hd := isDigit_of_le hdigit
      obtain ⟨hall, hpost, -⟩ := @ih { h with portOk := true } hcolon hrest hs
      exact ⟨List.forall_mem_cons.mpr ⟨Or.inr hd, hall⟩, hpost,
        fun _ => Or.inr ⟨c, List.mem_cons_self, hd⟩⟩

/-- A host that passes: legal characters, and perhaps what follows a colon. -/
theorem scanHost_ok (hcolon : h.postColon = false) (hport : h.portOk = false) (hno : '/' ∉ host)
    (hs : scanHost h host = .ok h') (hdigit : h'.postColon = true → h'.portOk = true) :
    ∃ name tail, host = name ++ tail ∧ (∀ c ∈ name, domainCharacter c = true ∨ c = '.') ∧
      (tail = [] ∨ ∃ t, tail = ':' :: t ∧ (∀ c ∈ t, c = ':' ∨ c.isDigit = true) ∧
        ∃ c ∈ t, c.isDigit = true) := by
  induction host generalizing h with
  | nil => exact ⟨[], [], rfl, fun _ hc => absurd hc List.not_mem_nil, Or.inl rfl⟩
  | cons c host ih =>
    have hc : c ≠ '/' := fun heq => hno (heq ▸ List.mem_cons_self)
    have hrest : '/' ∉ host := fun hmem => hno (List.mem_cons_of_mem c hmem)
    rw [scanHost, if_neg hc] at hs
    by_cases hcol : c = ':'
    · -- the name ends
      rw [if_pos hcol] at hs
      obtain ⟨hall, hpost, hfound⟩ := scanHost_port rfl hrest hs
      refine ⟨[], c :: host, rfl, fun _ hd => absurd hd List.not_mem_nil,
        Or.inr ⟨host, congrArg (· :: host) hcol, hall, ?_⟩⟩
      refine (hfound (hdigit hpost)).resolve_left fun hok => ?_
      rw [hport] at hok
      exact absurd hok (by decide)
    rw [if_neg hcol, hcolon, if_neg (by decide)] at hs
    -- the character is one of the name
    have hname : ∀ h₁ : HostScan, scanHost h₁ host = .ok h' → h₁.postColon = false →
        h₁.portOk = false → (domainCharacter c = true ∨ c = '.') →
        ∃ name tail, c :: host = name ++ tail ∧
          (∀ c ∈ name, domainCharacter c = true ∨ c = '.') ∧
          (tail = [] ∨ ∃ t, tail = ':' :: t ∧ (∀ c ∈ t, c = ':' ∨ c.isDigit = true) ∧
            ∃ c ∈ t, c.isDigit = true) := by
      intro h₁ hs₁ hcolon₁ hport₁ hlegal
      obtain ⟨name, tail, rfl, hall, htail⟩ := ih hcolon₁ hport₁ hrest hs₁
      exact ⟨c :: name, tail, rfl, List.forall_mem_cons.mpr ⟨hlegal, hall⟩, htail⟩
    split_ifs at hs with hdot hdotOk hdomain
    · exact hname _ hs rfl hport (Or.inr hdot)
    · exact hname _ hs rfl hport (Or.inl hdomain)

end Host

/-! ## Banks -/

/-- How the URI of a bank is split: the host, the path with the account, and the query. -/
structure BankParts (uri host seg query : List Char) : Prop where
  drop_eq : uri.drop xtalerbankPrefix.length = host ++ '/' :: (seg ++ '?' :: query)
  host_slash : '/' ∉ host
  seg_query : '?' ∉ seg
  account : xtalerbankAccountFromPayto uri = some (afterLast '/' seg)
  host_form : ∃ name tail, host = name ++ tail ∧ (∀ c ∈ name, domainCharacter c = true ∨ c = '.') ∧
    (tail = [] ∨ ∃ t, tail = ':' :: t ∧ (∀ c ∈ t, c = ':' ∨ c.isDigit = true) ∧
      ∃ c ∈ t, c.isDigit = true)
  receiver : HasParameter uri "receiver-name=".toList

section Bank

variable {uri host seg query : List Char}

/-- The URI of a bank that is accepted can be split. -/
theorem validatePaytoXtalerbank_ok (hm : IsXTalerBank uri)
    (h : validatePaytoXtalerbank uri = none) : ∃ host seg query, BankParts uri host seg query := by
  have hprefix : samePrefixIgnoringCase uri 0 "payto://x-taler-bank/".toList = true := hm
  unfold validatePaytoXtalerbank at h
  dsimp only at h
  rw [if_neg (not_not.mpr hprefix)] at h
  cases hbeg : strchr uri xtalerbankPrefix.length '/' with
  | none =>
    change strchr uri "payto://x-taler-bank/".toList.length '/' = none at hbeg
    rw [hbeg] at h
    cases h
  | some beg =>
    have hbeg' : strchr uri "payto://x-taler-bank/".toList.length '/' = some beg := hbeg
    rw [hbeg'] at h
    dsimp only at h
    obtain ⟨host, tail, hdrop, hslash, hpos⟩ := strchr_eq_some_iff.mp hbeg
    cases hend : strchr uri (beg + 1) '?' with
    | none =>
      rw [hend] at h
      cases h
    | some e =>
      rw [hend] at h
      dsimp only at h
      obtain ⟨seg, query, hrest, hquestion, he⟩ := strchr_eq_some_iff.mp hend
      have htail : uri.drop (beg + 1) = tail := by
        rw [hpos, Nat.add_assoc, ← List.drop_drop, hdrop, ← List.drop_drop, List.drop_left]
        rfl
      have hfuel : seg.length ≤ uri.length := by
        have hlength := congrArg List.length hrest
        rw [List.length_drop, List.length_append] at hlength
        omega
      obtain ⟨path, hpath, hlast⟩ := lastSegment_eq hrest hfuel
      rw [he, hlast] at h
      split_ifs at h with hdomain hdash
      -- the loop over the host ends at the first slash
      have hhost : strndup uri "payto://x-taler-bank/".toList.length
          (beg + 1 + path.length - "payto://x-taler-bank/".toList.length) =
          host ++ '/' :: path := by
        have hsplit : uri.drop "payto://x-taler-bank/".toList.length =
            (host ++ '/' :: path) ++ (afterLast '/' seg ++ '?' :: query) := by
          have hseg : tail = path ++ (afterLast '/' seg ++ '?' :: query) := by
            rw [← htail, hrest, ← List.append_assoc, ← hpath]
          change uri.drop xtalerbankPrefix.length = _
          rw [hdrop, hseg, List.append_assoc, List.cons_append]
        have hlength : (host ++ '/' :: path).length =
            beg + 1 + path.length - "payto://x-taler-bank/".toList.length := by
          have hsame : xtalerbankPrefix.length = "payto://x-taler-bank/".toList.length := rfl
          rw [List.length_append, List.length_cons]
          omega
        rw [strndup, hsplit, ← hlength, List.take_left]
      rw [hhost, scanHost_append hslash] at h
      cases hscan : scanHost {} host with
      | error err =>
        rw [hscan] at h
        cases h
      | ok scan =>
        rw [hscan] at h
        dsimp only at h
        split_ifs at h with hport
        cases hkey : paytoGetKey uri "receiver-name=".toList with
        | none =>
          rw [hkey] at h
          cases h
        | some value =>
          refine ⟨host, seg, query, ?_, hslash, hquestion, ?_, ?_,
            hasParameter_of_paytoGetKey hkey⟩
          · rw [hdrop, ← htail, hrest]
          · have hbank : samePrefixIgnoringCase uri 0 xtalerbankPrefix = true := hm
            unfold xtalerbankAccountFromPayto
            rw [if_neg (not_not.mpr hbank), hbeg]
            dsimp only
            rw [hend, Option.getD_some, he, hlast]
            have hdrop' : uri.drop (beg + 1 + path.length) = afterLast '/' seg ++ '?' :: query := by
              rw [← List.drop_drop, hrest]
              conv_lhs => rw [hpath]
              rw [List.append_assoc, List.drop_left]
            have hlength : beg + 1 + seg.length - (beg + 1 + path.length) =
                (afterLast '/' seg).length := by
              have hsum := congrArg List.length hpath
              rw [List.length_append] at hsum
              omega
            rw [strndup, hdrop', hlength, List.take_left]
          · refine scanHost_ok rfl rfl hslash hscan fun hpost => ?_
            by_contra hno
            exact hport ⟨hpost, hno⟩

theorem count_take_of_samePrefix {t : List Char} {c : Char} (hc : c.toNat < 'A'.toNat)
    (h : samePrefixIgnoringCase uri 0 t = true) :
    (uri.take t.length).count c = (t.map Char.toLower).count c := by
  have hsame := sameIgnoringCase_iff.mp h
  rw [← hsame, count_map_toLower hc]
  rfl

theorem not_mem_take_of_samePrefix {t : List Char} {c : Char} (hc : c.toNat < 'A'.toNat)
    (h : samePrefixIgnoringCase uri 0 t = true) (hno : (t.map Char.toLower).count c = 0) :
    c ∉ uri.take t.length := by
  rw [← List.count_eq_zero, count_take_of_samePrefix hc h, hno]

/-- The characters of a name and of a port. -/
theorem BankParts.host_legal (h : BankParts uri host seg query) {c : Char} (hc : c ∈ host) :
    domainCharacter c = true ∨ c = '.' ∨ c = ':' ∨ c.isDigit = true := by
  obtain ⟨name, tail, hhost, hname, htail⟩ := h.host_form
  rw [hhost] at hc
  rcases List.mem_append.mp hc with hmem | hmem
  · exact (hname c hmem).imp_right Or.inl
  · rcases htail with rfl | ⟨t, rfl, hall, -⟩
    · exact absurd hmem List.not_mem_nil
    · rcases List.mem_cons.mp hmem with hcolon | hmem
      · exact Or.inr (Or.inr (Or.inl hcolon))
      · exact Or.inr (Or.inr (hall c hmem))

theorem beforeQuery_append {front rest : List Char} (h : '?' ∉ front) :
    beforeQuery (front ++ '?' :: rest) = front := by
  rw [beforeQuery_eq, List.takeWhile_append_of_pos, List.takeWhile_cons_of_neg (by decide),
    List.append_nil]
  exact fun c hc => decide_eq_true fun heq => h (heq ▸ hc)

theorem BankParts.beforeQuery_eq (hm : IsXTalerBank uri) (h : BankParts uri host seg query) :
    beforeQuery uri = uri.take xtalerbankPrefix.length ++ (host ++ '/' :: seg) := by
  have hscheme : '?' ∉ uri.take xtalerbankPrefix.length :=
    not_mem_take_of_samePrefix (by decide) hm (by decide)
  have hhost : '?' ∉ host := fun hmem => by
    have hlegal := h.host_legal hmem
    revert hlegal
    decide
  have hsplit : uri = (uri.take xtalerbankPrefix.length ++ (host ++ '/' :: seg)) ++ '?' :: query := by
    conv_lhs => rw [← List.take_append_drop xtalerbankPrefix.length uri, h.drop_eq]
    simp only [List.append_assoc, List.cons_append]
  conv_lhs => rw [hsplit]
  refine beforeQuery_append fun hmem => ?_
  rcases List.mem_append.mp hmem with hmem | hmem
  · exact hscheme hmem
  rcases List.mem_append.mp hmem with hmem | hmem
  · exact hhost hmem
  rcases List.mem_cons.mp hmem with hslash | hmem
  · exact absurd hslash (by decide)
  · exact h.seg_query hmem

theorem BankParts.drop_beforeQuery (hm : IsXTalerBank uri) (h : BankParts uri host seg query) :
    (beforeQuery uri).drop xtalerbankPrefix.length = host ++ '/' :: seg := by
  have hlength : (uri.take xtalerbankPrefix.length).length = xtalerbankPrefix.length := by
    rw [List.length_take, Nat.min_eq_left]
    have hrest := congrArg List.length h.drop_eq
    rw [List.length_drop, List.length_append, List.length_cons] at hrest
    omega
  rw [h.beforeQuery_eq hm, List.drop_left' hlength]

theorem BankParts.hostPart_eq (hm : IsXTalerBank uri) (h : BankParts uri host seg query) :
    hostPart uri = host := by
  unfold hostPart
  rw [h.drop_beforeQuery hm, List.takeWhile_append_of_pos, List.takeWhile_cons_of_neg (by decide),
    List.append_nil]
  exact fun c hc => decide_eq_true fun heq => h.host_slash (heq ▸ hc)

theorem BankParts.afterLast_eq (hm : IsXTalerBank uri) (h : BankParts uri host seg query) :
    afterLast '/' (beforeQuery uri) = afterLast '/' seg := by
  rw [h.beforeQuery_eq hm, ← List.append_assoc, afterLast_append]

theorem afterLast_eq_nil_iff {c : Char} {s : List Char} (hne : s ≠ []) :
    afterLast c s = [] ↔ s.getLast? = some c := by
  by_cases hmem : c ∈ s
  · obtain ⟨a, ha, hlast⟩ := exists_afterLast hmem
    generalize afterLast c s = b at ha hlast ⊢
    rw [ha, List.getLast?_append]
    cases b with
    | nil => exact iff_of_true rfl rfl
    | cons x b =>
      refine iff_of_false nofun fun heq => ?_
      rw [List.getLast?_cons_cons, List.getLast?_eq_some_getLast (List.cons_ne_nil x b),
        Option.some_or, Option.some.injEq] at heq
      exact hlast (heq ▸ List.getLast_mem _)
  · rw [afterLast_eq_self hmem]
    exact iff_of_false hne fun heq => hmem (List.mem_of_getLast? heq)

/-- A host that begins with a name and has one colon at most, and a path that does not end with a
slash. -/
structure ProperBank (uri : List Char) : Prop where
  host_ne_nil : hostPart uri ≠ []
  host_head : (hostPart uri).head? ≠ some ':'
  one_colon : (hostPart uri).count ':' ≤ 1
  path_last : (beforeQuery uri).getLast? ≠ some '/'

theorem xtalerbankTarget_iff (hm : IsXTalerBank uri) (h : BankParts uri host seg query) :
    XTalerBankTarget uri ↔ ProperBank uri := by
  have hne : beforeQuery uri ≠ [] := by
    rw [h.beforeQuery_eq hm]
    simp
  have hnone : ∀ c, domainCharacter c = true ∨ c = '.' → c ≠ ':' := by
    rintro c hlegal rfl
    revert hlegal
    decide
  have hdigit : ∀ c : Char, c.isDigit = true → c ≠ ':' := by
    rintro c hd rfl
    revert hd
    decide
  constructor
  · intro ht
    obtain ⟨name, port, hhost, hname, hlegal, hport⟩ := ht.host
    obtain ⟨c, name, rfl⟩ := List.exists_cons_of_ne_nil hname
    have hzero : (c :: name).count ':' = 0 :=
      List.count_eq_zero.mpr fun hmem => hnone _ (hlegal _ hmem) rfl
    refine ⟨?_, ?_, ?_, fun heq => ht.account_ne_nil ((afterLast_eq_nil_iff hne).mpr heq)⟩
    · rw [hhost]
      exact List.cons_ne_nil _ _
    · rw [hhost]
      exact fun heq => hnone c (hlegal c List.mem_cons_self) (Option.some.inj heq)
    · rw [hhost, List.count_append, hzero]
      rcases hport with rfl | ⟨digits, rfl, -, hdigits⟩
      · exact Nat.zero_le 1
      · have hnocolon : digits.count ':' = 0 :=
          List.count_eq_zero.mpr fun hmem => hdigit _ (hdigits _ hmem) rfl
        rw [List.count_cons_self, hnocolon]
  · intro hp
    obtain ⟨name, tail, hhost, hlegal, htail⟩ := h.host_form
    refine ⟨⟨name, tail, ?_, ?_, hlegal, ?_⟩, ?_, ?_, ?_⟩
    · rw [h.hostPart_eq hm, hhost]
    · rintro rfl
      rcases htail with rfl | ⟨t, rfl, -⟩
      · exact hp.host_ne_nil ((h.hostPart_eq hm).trans hhost)
      · refine hp.host_head ?_
        rw [h.hostPart_eq hm, hhost]
        rfl
    · refine htail.imp_right fun ⟨t, ht, hall, c, hc, hd⟩ =>
        ⟨t, ht, List.ne_nil_of_mem hc, fun x hx => (hall x hx).resolve_left fun hcolon => ?_⟩
      -- a second colon
      have hcount := hp.one_colon
      rw [h.hostPart_eq hm, hhost, ht, List.count_append, List.count_cons_self] at hcount
      have hpos : 0 < t.count ':' := List.count_pos_iff.mpr (hcolon ▸ hx)
      omega
    · rw [h.drop_beforeQuery hm]
      exact List.mem_append_right _ List.mem_cons_self
    · exact fun heq => hp.path_last ((afterLast_eq_nil_iff hne).mp heq)
    · rw [h.afterLast_eq hm, h.account]

end Bank

/-! ## IBANs -/

section Iban

variable {uri : List Char}

theorem IsIban.slash_mem (hm : IsIban uri) : '/' ∈ uri := by
  have hprefix : samePrefixIgnoringCase uri 0 "payto://iban/".toList = true := hm
  have hcount := count_take_of_samePrefix (c := '/') (by decide) hprefix
  have hpos : 0 < (uri.take "payto://iban/".toList.length).count '/' := by
    rw [hcount]
    decide
  exact List.mem_of_mem_take (List.count_pos_iff.mp hpos)

/-- What `strchr` cuts off before a character, or leaves in one piece. -/
theorem strchr_takeWhile (s : List Char) (i : ℕ) (c : Char) :
    (∀ k, strchr s i c = some k → strndup s i (k - i) = (s.drop i).takeWhile (· ≠ c)) ∧
      (strchr s i c = none → s.drop i = (s.drop i).takeWhile (· ≠ c)) := by
  constructor
  · intro k hk
    obtain ⟨b, rest, hsplit, hb, rfl⟩ := strchr_eq_some_iff.mp hk
    have hall : ∀ x ∈ b, decide (x ≠ c) = true :=
      fun x hx => decide_eq_true fun heq => hb (heq ▸ hx)
    rw [strndup, hsplit, Nat.add_sub_cancel_left, List.take_left,
      List.takeWhile_append_of_pos hall, List.takeWhile_cons_of_neg (by simp), List.append_nil]
  · intro hk
    have hno := strchr_eq_none_iff.mp hk
    have hall : ∀ x ∈ s.drop i, decide (x ≠ c) = true :=
      fun x hx => decide_eq_true fun heq => hno (heq ▸ hx)
    exact (List.takeWhile_eq_self_iff.mpr hall).symm

/-- What is validated of an IBAN: what follows the last slash of all, up to a question mark. -/
theorem validatePaytoIban_ok (hm : IsIban uri) (h : validatePaytoIban uri = none) :
    ibanValidate ((afterLast '/' uri).takeWhile (· ≠ '?')) = none ∧
      HasParameter uri "receiver-name=".toList := by
  have hprefix : samePrefixIgnoringCase uri 0 "payto://iban/".toList = true := hm
  obtain ⟨hsome, hnone⟩ := strchr_takeWhile uri ((strrchr uri '/').getD 0 + 1) '?'
  rw [drop_strrchr hm.slash_mem] at hsome hnone
  unfold validatePaytoIban at h
  rw [if_neg (not_not.mpr hprefix)] at h
  dsimp only at h
  rw [drop_strrchr hm.slash_mem] at h
  have hvalid : ibanValidate ((afterLast '/' uri).takeWhile (· ≠ '?')) = none := by
    by_contra hinvalid
    obtain ⟨err, herr⟩ := Option.ne_none_iff_exists'.mp hinvalid
    cases hq : strchr uri ((strrchr uri '/').getD 0 + 1) '?' with
    | none =>
      rw [hq] at h
      dsimp only at h
      rw [hnone hq, herr] at h
      exact nomatch h
    | some q =>
      rw [hq] at h
      dsimp only at h
      rw [hsome q hq, herr] at h
      exact nomatch h
  refine ⟨hvalid, ?_⟩
  cases hkey : paytoGetKey uri "receiver-name=".toList with
  | some value => exact hasParameter_of_paytoGetKey hkey
  | none =>
    rw [hkey] at h
    cases hq : strchr uri ((strrchr uri '/').getD 0 + 1) '?' with
    | none =>
      rw [hq] at h
      dsimp only at h
      rw [hnone hq, hvalid] at h
      exact nomatch h
    | some q =>
      rw [hq] at h
      dsimp only at h
      rw [hsome q hq, hvalid] at h
      exact nomatch h

/-- Without a slash in the query the last segment of the path is what follows the last slash. -/
theorem afterLast_beforeQuery (hm : IsIban uri) (hno : '/' ∉ uri.dropWhile (· ≠ '?')) :
    afterLast '/' (beforeQuery uri) = (afterLast '/' uri).takeWhile (· ≠ '?') := by
  have hsplit : uri.takeWhile (· ≠ '?') ++ uri.dropWhile (· ≠ '?') = uri :=
    List.takeWhile_append_dropWhile
  have hslash : '/' ∈ uri.takeWhile (· ≠ '?') := by
    have hmem := hm.slash_mem
    rw [← hsplit] at hmem
    exact (List.mem_append.mp hmem).resolve_right hno
  have hhead := List.head?_dropWhile_not (fun x => decide (x ≠ '?')) uri
  rw [beforeQuery_eq]
  obtain ⟨a, ha, hlast⟩ := exists_afterLast hslash
  have hquestion : ∀ c ∈ afterLast '/' (uri.takeWhile (· ≠ '?')), decide (c ≠ '?') = true := by
    intro c hc
    have hmem : c ∈ uri.takeWhile (· ≠ '?') := by
      rw [ha]
      exact List.mem_append_right _ (List.mem_cons_of_mem _ hc)
    have himp := List.mem_takeWhile_imp hmem
    exact himp
  generalize afterLast '/' (uri.takeWhile (· ≠ '?')) = segment at ha hlast hquestion ⊢
  generalize uri.dropWhile (· ≠ '?') = query at hno hsplit hhead
  have huri : uri = a ++ '/' :: (segment ++ query) := by
    rw [← hsplit, ha, List.append_assoc, List.cons_append]
  have hafter : afterLast '/' uri = segment ++ query := by
    rw [huri, afterLast_append]
    refine afterLast_eq_self fun hmem => ?_
    exact (List.mem_append.mp hmem).elim hlast hno
  rw [hafter, List.takeWhile_append_of_pos hquestion]
  cases query with
  | nil => rw [List.takeWhile_nil, List.append_nil]
  | cons c query =>
    have hc : c = '?' := by simpa using hhead
    rw [hc, List.takeWhile_cons_of_neg (by decide), List.append_nil]

end Iban

/-! ## All URIs -/

/-- **What is validated is what is used**, in a URI of an IBAN or of a bank that is accepted, if and
only if the query of an IBAN has no slash, or the segment before it is an IBAN all the same, and
the host of a bank begins with a name, has one colon at most, and an account is there. -/
theorem paytoSound_iff {uri : List Char} (h : paytoValidate uri = none)
    (hm : IsIban uri ∨ IsXTalerBank uri) : PaytoSound uri ↔
      (IsIban uri → '/' ∉ uri.dropWhile (· ≠ '?') ∨
        ibanValidate (afterLast '/' (beforeQuery uri)) = none) ∧
      (IsXTalerBank uri → ProperBank uri) := by
  have hboth : validatePaytoIban uri = none ∧ validatePaytoXtalerbank uri = none := by
    unfold paytoValidate at h
    split_ifs at h
    cases hfind : uri.findIdx? (· ∉ allowedCharacters) with
    | some i =>
      rw [hfind] at h
      exact nomatch h
    | none =>
      rw [hfind] at h
      dsimp only at h
      cases hslash : strchr uri payto.length '/' with
      | none =>
        rw [hslash] at h
        exact nomatch h
      | some e =>
        rw [hslash] at h
        dsimp only at h
        cases hiban : validatePaytoIban uri with
        | some err =>
          rw [hiban] at h
          exact nomatch h
        | none =>
          rw [hiban] at h
          exact ⟨rfl, h⟩
  constructor
  · intro hs
    refine ⟨fun hiban => Or.inr (hs.iban hiban), fun hbank => ?_⟩
    obtain ⟨host, seg, query, hparts⟩ := validatePaytoXtalerbank_ok hbank hboth.2
    exact (xtalerbankTarget_iff hbank hparts).mp (hs.xtalerbank hbank)
  · rintro ⟨hiban, hbank⟩
    refine ⟨?_, fun hi => ?_, fun hb => ?_⟩
    · rcases hm with hi | hb
      · exact (validatePaytoIban_ok hi hboth.1).2
      · obtain ⟨host, seg, query, hparts⟩ := validatePaytoXtalerbank_ok hb hboth.2
        exact hparts.receiver
    · rcases hiban hi with hno | hvalid
      · rw [afterLast_beforeQuery hi hno]
        exact (validatePaytoIban_ok hi hboth.1).1
      · exact hvalid
    · obtain ⟨host, seg, query, hparts⟩ := validatePaytoXtalerbank_ok hb hboth.2
      exact (xtalerbankTarget_iff hb hparts).mpr (hbank hb)

/-- A bank at a port. -/
def bankUri : List Char := "payto://x-taler-bank/localhost:8080/Exchange?receiver-name=A".toList

theorem paytoSound_bankUri : XTalerBankTarget bankUri := by
  have hvalid : paytoValidate bankUri = none := by
    unfold paytoValidate
    rw [allowedCharacters_eq]
    decide +kernel
  have hbank : IsXTalerBank bankUri := by
    unfold IsXTalerBank
    decide
  refine ((paytoSound_iff hvalid (Or.inr hbank)).mpr ⟨fun hiban => ?_, fun _ => ?_⟩).xtalerbank hbank
  · exact absurd hiban (by unfold IsIban; decide)
  · exact ⟨by decide, by decide, by decide, by decide⟩

/-- The URI of an IBAN whose query has a slash, with an IBAN after it. -/
def slashInQuery : List Char := "payto://iban/BAD?receiver-name=x/DE75512108001245126199".toList

/-- What follows the slash in the query is validated. -/
theorem not_paytoSound : ¬∀ uri : List Char, paytoValidate uri = none →
    (IsIban uri ∨ IsXTalerBank uri) → PaytoSound uri := by
  intro h
  have hvalid : paytoValidate slashInQuery = none := by
    unfold paytoValidate
    rw [allowedCharacters_eq]
    decide +kernel
  have hiban : IsIban slashInQuery := by
    unfold IsIban
    decide
  have hsound := (h _ hvalid (Or.inl hiban)).iban hiban
  revert hsound
  decide

end TalerExchange
