import TalerExchange.Amount.Text
import TalerExchange.Json.Contract
import Mathlib.Data.List.TakeWhile
import Mathlib.Data.List.Nodup

/-!
# Expanding a path

`TALER_JSON_expand_path`: a callback for each position of a JSON value that a path denotes.

* `parsePath`, `expandPath`: the parser, which looks for a bracket behind the next dot;
* `PathPart`, `pathText`: a path by its parts; `asWritten`, `asRead`: what its parts say, and what
  the parser makes of them;
* `positions`, `Matching`: the positions that components denote; `mem_positions`;
* `parsePath_eq`: the calls are those for the components as the parser reads them;
* **`expanded_iff`**: when they are those for the path.
-/

namespace TalerExchange

/-! ## The parser -/

/-- The text before the first `c`. -/
def strBefore (c : Char) (s : List Char) : List Char := s.takeWhile (· ≠ c)

/-- The text behind the first `c`, if there is one. -/
def strBehind (c : Char) (s : List Char) : Option (List Char) :=
  match s.dropWhile (· ≠ c) with
  | [] => none
  | _ :: rest => some rest

/-- The value that `%u` stores for a number in the text. -/
def unsignedOf (n : ℕ) : ℕ := min n (2 ^ 64 - 1) % 2 ^ 32

/-- Whether there is a minus, and what follows the sign. -/
def scanSign : List Char → Bool × List Char
  | '-' :: digits => (true, digits)
  | '+' :: digits => (false, digits)
  | digits => (false, digits)

/-- `1 == sscanf (s, "%u%c", &index, &dummy)`, and the index. -/
def scanUnsigned (s : List Char) : Option ℕ :=
  let (negative, digits) := scanSign (s.dropWhile RawAmount.isSpace)
  if digits = [] ∨ ¬ digits.all Char.isDigit then none
  else
    let n := Nat.ofDigitChars 10 digits 0
    if negative ∧ n < 2 ^ 64 then some ((2 ^ 64 - n) % 2 ^ 32)
    else some (unsignedOf n)

/-- A call of the callback: the name and the parent that it is given, and the position for which it
is called. An object is known by its position in the value. -/
structure ExpandCall where
  id : List Char
  parent : Option (List PathStep)
  obj : List PathStep
deriving DecidableEq

/-- The elements of what may be an array. -/
def arrayElements : Option Json → List Json
  | some (.array elements) => elements
  | _ => []

/-- The recursive calls of a loop, up to the first that fails. -/
def collectCalls : List (Generic × List ExpandCall) → Generic × List ExpandCall
  | [] => (.ok, [])
  | (r, calls) :: rest =>
    if r = .ok then ((collectCalls rest).1, calls ++ (collectCalls rest).2) else (r, calls)

/-- `parse_path`, to some depth; `pos` is where `obj` is, `prev` where its parent is. -/
def parsePath : ℕ → Json → List PathStep → Option (List PathStep) → List Char →
    Generic × List ExpandCall
  | 0, _, _, _, _ => (.sysErr, [])
  | n + 1, obj, pos, prev, path =>
    match strBehind '.' path with
    | none => (.ok, [⟨path, prev, pos⟩])
    | some nextPath =>
      if prev = none ∧ strBefore '.' path ≠ ['$'] then (.sysErr, [])
      else
        let nextId := strBefore '.' nextPath
        let name := String.ofList (strBefore '[' nextId)
        match strBehind '[' nextPath with
        | none =>
          match obj.get? name with
          | none => (.ok, [])
          | some nextObj => parsePath n nextObj (pos ++ [.member name]) (some pos) nextPath
        | some bracket =>
          -- The dot was overwritten; a bracket behind it is not affected.
          let bracket := if '[' ∈ nextId then strBefore '.' bracket else bracket
          match strBehind ']' bracket with
          | none => (.sysErr, [])
          | some _ =>
            let array := arrayElements (obj.get? name)
            if strBefore ']' bracket = ['*'] then
              collectCalls (array.zipIdx.map fun e =>
                parsePath n e.1 (pos ++ [.member name, .element e.2]) (some pos) nextPath)
            else match scanUnsigned (strBefore ']' bracket) with
              | none => (.sysErr, [])
              | some index =>
                match array[index]? with
                | none => (.ok, [])
                | some nextObj =>
                  parsePath n nextObj (pos ++ [.member name, .element index]) (some pos) nextPath

/-- `TALER_JSON_expand_path`: the code, and the calls. -/
def expandPath (json : Json) (path : List Char) : Generic × List ExpandCall :=
  parsePath (path.length + 1) json [] none path

/-! ## Paths -/

/-- A part of a path: `.name`, `.name[i]` or `.name[*]`. -/
structure PathPart where
  name : List Char
  bracket : Option (List Char)
  name_plain : ∀ c ∈ name, c ≠ '.' ∧ c ≠ '['
  bracket_form : ∀ b ∈ bracket, b = ['*'] ∨ (b ≠ [] ∧ ∀ c ∈ b, c.isDigit = true)

/-- The text of a part behind the dot. -/
def PathPart.text (p : PathPart) : List Char :=
  match p.bracket with
  | none => p.name
  | some b => p.name ++ '[' :: (b ++ [']'])

/-- The text of a path behind its beginning. -/
def partsText (parts : List PathPart) : List Char := parts.flatMap fun p => '.' :: p.text

/-- The text of a path. -/
def pathText (parts : List PathPart) : List Char := '$' :: partsText parts

/-- Which elements of an array a component takes. -/
inductive Selector
  | all
  | index (i : ℕ)
deriving DecidableEq

/-- A component of a path. -/
structure Component where
  name : String
  selector : Option Selector
deriving DecidableEq

/-- What stands in brackets, by the value of a number. -/
def selectorOf (value : ℕ → ℕ) (b : List Char) : Selector :=
  if b = ['*'] then .all else .index (value (Nat.ofDigitChars 10 b 0))

/-- The components as the path has them. -/
def asWritten (parts : List PathPart) : List Component :=
  parts.map fun p => ⟨String.ofList p.name, p.bracket.map (selectorOf id)⟩

/-- The first bracket of a path. -/
def firstBracket (parts : List PathPart) : Option (List Char) := parts.findSome? PathPart.bracket

/-- The components as `parse_path` reads them: a part without a bracket takes the next one. -/
def asRead : List PathPart → List Component
  | [] => []
  | p :: parts =>
    ⟨String.ofList p.name, (p.bracket.or (firstBracket parts)).map (selectorOf unsignedOf)⟩ ::
      asRead parts

/-! ## Positions -/

/-- The value at a position. -/
def valueAt : Json → List PathStep → Option Json
  | j, [] => some j
  | j, .member k :: p => (j.get? k).bind fun v => valueAt v p
  | j, .element i :: p => (arrayElements (some j))[i]?.bind fun v => valueAt v p

/-- The steps of a component. -/
def Component.Steps (c : Component) (q : List PathStep) : Prop :=
  match c.selector with
  | none => q = [.member c.name]
  | some (.index i) => q = [.member c.name, .element i]
  | some .all => ∃ i, q = [.member c.name, .element i]

/-- The steps of a position are those of the components. -/
def Matching : List Component → List PathStep → Prop
  | [], p => p = []
  | c :: cs, p => ∃ q r, p = q ++ r ∧ c.Steps q ∧ Matching cs r

/-- How many steps a component has. -/
def Component.depth (c : Component) : ℕ := if c.selector.isSome then 2 else 1

/-- The object that holds the final component. -/
def holder (cs : List Component) (p : List PathStep) : Option (List PathStep) :=
  cs.getLast?.map fun c => p.take (p.length - c.depth)

/-- The text of the final component. -/
def lastText (parts : List PathPart) : List Char :=
  match parts.getLast? with
  | none => ['$']
  | some p => p.text

/-- **One call for each position** of the value that matches the path, and no other. -/
structure Expanded (json : Json) (parts : List PathPart) (r : Generic × List ExpandCall) :
    Prop where
  ok : r.1 = .ok
  calls : ∃ ps : List (List PathStep), ps.Nodup ∧
    (∀ p, p ∈ ps ↔ Matching (asWritten parts) p ∧ (valueAt json p).isSome = true) ∧
    r.2 = ps.map fun p => ⟨lastText parts, holder (asWritten parts) p, p⟩

/-- The values a component takes, with the steps to them. -/
def selected (c : Component) (j : Json) : List (List PathStep × Json) :=
  match c.selector with
  | none => (j.get? c.name).toList.map fun v => ([.member c.name], v)
  | some (.index i) =>
    (arrayElements (j.get? c.name))[i]?.toList.map fun v => ([.member c.name, .element i], v)
  | some .all =>
    (arrayElements (j.get? c.name)).zipIdx.map fun e => ([.member c.name, .element e.2], e.1)

/-- The positions that the components denote, in the order of the value. -/
def positions : List Component → Json → List (List PathStep)
  | [], _ => [[]]
  | c :: cs, j => (selected c j).flatMap fun e => (positions cs e.2).map (e.1 ++ ·)

theorem valueAt_append (j : Json) (q r : List PathStep) :
    valueAt j (q ++ r) = (valueAt j q).bind fun v => valueAt v r := by
  induction q generalizing j with
  | nil => rfl
  | cons s q ih =>
    cases s with
    | member k =>
      rw [List.cons_append, valueAt, valueAt, Option.bind_assoc]
      exact congrArg _ (funext fun v => ih v)
    | element i =>
      rw [List.cons_append, valueAt, valueAt, Option.bind_assoc]
      exact congrArg _ (funext fun v => ih v)

theorem valueAt_member (j : Json) (k : String) : valueAt j [.member k] = j.get? k := by
  rw [valueAt]
  cases j.get? k <;> rfl

theorem valueAt_element (j : Json) (k : String) (i : ℕ) :
    valueAt j [.member k, .element i] = (arrayElements (j.get? k))[i]? := by
  rw [valueAt]
  cases j.get? k with
  | none => rfl
  | some v =>
    rw [Option.bind_some, valueAt]
    cases (arrayElements (some v))[i]? <;> rfl

theorem mem_selected {c : Component} {j : Json} {q : List PathStep} {v : Json} :
    (q, v) ∈ selected c j ↔ c.Steps q ∧ valueAt j q = some v := by
  obtain ⟨name, selector⟩ := c
  unfold selected Component.Steps
  rcases selector with _ | _ | i
  · simp only [List.mem_map, Option.mem_toList, Prod.mk.injEq]
    constructor
    · rintro ⟨w, hw, rfl, rfl⟩
      exact ⟨rfl, (valueAt_member j name).trans hw⟩
    · rintro ⟨rfl, hv⟩
      exact ⟨v, (valueAt_member j name).symm.trans hv, rfl, rfl⟩
  · simp only [List.mem_map, Prod.mk.injEq, Prod.exists, List.mem_zipIdx_iff_getElem?]
    constructor
    · rintro ⟨w, i, hw, rfl, rfl⟩
      exact ⟨⟨i, rfl⟩, (valueAt_element j name i).trans hw⟩
    · rintro ⟨⟨i, rfl⟩, hv⟩
      exact ⟨v, i, (valueAt_element j name i).symm.trans hv, rfl, rfl⟩
  · simp only [List.mem_map, Option.mem_toList, Prod.mk.injEq]
    constructor
    · rintro ⟨w, hw, rfl, rfl⟩
      exact ⟨rfl, (valueAt_element j name i).trans hw⟩
    · rintro ⟨rfl, hv⟩
      exact ⟨v, (valueAt_element j name i).symm.trans hv, rfl, rfl⟩

/-- The positions are those that match and where there is a value. -/
theorem mem_positions {cs : List Component} {j : Json} {p : List PathStep} :
    p ∈ positions cs j ↔ Matching cs p ∧ (valueAt j p).isSome = true := by
  induction cs generalizing j p with
  | nil =>
    unfold positions Matching
    rw [List.mem_singleton]
    exact ⟨fun h => ⟨h, by rw [h]; rfl⟩, fun h => h.1⟩
  | cons c cs ih =>
    unfold positions Matching
    simp only [List.mem_flatMap, List.mem_map, Prod.exists, mem_selected, ih]
    constructor
    · rintro ⟨q, v, ⟨hq, hv⟩, r, ⟨hr, hsome⟩, rfl⟩
      refine ⟨⟨q, r, rfl, hq, hr⟩, ?_⟩
      rw [valueAt_append, hv]
      exact hsome
    · rintro ⟨⟨q, r, rfl, hq, hr⟩, hsome⟩
      rw [valueAt_append] at hsome
      cases hv : valueAt j q with
      | none =>
        rw [hv] at hsome
        exact nomatch hsome
      | some v =>
        rw [hv] at hsome
        exact ⟨q, v, ⟨hq, hv⟩, r, ⟨hr, hsome⟩, rfl⟩

/-- The steps to a value are those of the component, so that their number is known. -/
theorem length_of_steps {c : Component} {q : List PathStep} (h : c.Steps q) :
    q.length = c.depth := by
  obtain ⟨name, selector⟩ := c
  unfold Component.Steps at h
  rcases selector with _ | _ | i
  · rw [h]
    rfl
  · obtain ⟨i, rfl⟩ := h
    rfl
  · rw [h]
    rfl

theorem nodup_selected (c : Component) (j : Json) : ((selected c j).map Prod.fst).Nodup := by
  obtain ⟨name, selector⟩ := c
  unfold selected
  rcases selector with _ | _ | i
  · cases j.get? name with
    | none => exact List.nodup_nil
    | some v => exact List.nodup_singleton _
  · have hsnd : ((arrayElements (j.get? name)).zipIdx.map Prod.snd).Nodup := by
      rw [List.zipIdx_map_snd]
      exact List.nodup_range'
    rw [List.map_map]
    have hmap : Prod.fst ∘ (fun e : Json × ℕ => ([PathStep.member name, .element e.2], e.1)) =
        (fun i => [PathStep.member name, .element i]) ∘ Prod.snd := rfl
    simp only [hmap, ← List.map_map]
    refine hsnd.map fun i i' h => ?_
    simpa using h
  · dsimp only
    cases (arrayElements (j.get? name))[i]? with
    | none => exact List.nodup_nil
    | some v => exact List.nodup_singleton _

/-- No position is listed twice. -/
theorem nodup_positions (cs : List Component) (j : Json) : (positions cs j).Nodup := by
  induction cs generalizing j with
  | nil => exact List.nodup_singleton _
  | cons c cs ih =>
    unfold positions
    refine List.nodup_flatMap.2 ⟨fun e _ => ?_, ?_⟩
    · exact (ih e.2).map fun r r' h => List.append_cancel_left h
    · have hpair := List.pairwise_map.1 (nodup_selected c j)
      refine hpair.imp_of_mem fun {e e'} he he' hne => ?_
      rintro p hp hp'
      obtain ⟨r, -, rfl⟩ := List.mem_map.1 hp
      obtain ⟨r', -, h⟩ := List.mem_map.1 hp'
      have hlen := length_of_steps (mem_selected.1 he).1
      have hlen' := length_of_steps (mem_selected.1 he').1
      exact hne (List.append_inj_left h (hlen'.trans hlen.symm)).symm

/-! ## The calls -/

/-- The calls for components, by the recursion of the parser. -/
def callsAt (id : List Char) :
    Option (List PathStep) → List PathStep → List Component → Json → List ExpandCall
  | prev, pos, [], _ => [⟨id, prev, pos⟩]
  | _, pos, c :: cs, j => (selected c j).flatMap fun e => callsAt id (some pos) (pos ++ e.1) cs e.2

theorem depth_le_of_matching {cs : List Component} {c : Component} {p : List PathStep}
    (h : Matching cs p) (hc : cs.getLast? = some c) : c.depth ≤ p.length := by
  induction cs generalizing p with
  | nil => exact nomatch hc
  | cons c' cs ih =>
    obtain ⟨q, r, rfl, hq, hr⟩ := h
    rw [List.length_append]
    cases cs with
    | nil =>
      cases hc
      rw [length_of_steps hq]
      exact Nat.le_add_right _ _
    | cons c'' cs =>
      rw [List.getLast?_cons_cons] at hc
      exact (ih hr hc).trans (Nat.le_add_left _ _)

/-- The calls are made for the positions, with the holder of the final component. -/
theorem callsAt_eq (id : List Char) (cs : List Component) (j : Json) (prev : Option (List PathStep))
    (pos : List PathStep) :
    callsAt id prev pos cs j = (positions cs j).map fun p =>
      ⟨id, if cs = [] then prev else (holder cs p).map (pos ++ ·), pos ++ p⟩ := by
  induction cs generalizing j prev pos with
  | nil =>
    change _ = [ExpandCall.mk id prev (pos ++ [])]
    rw [List.append_nil]
    rfl
  | cons c cs ih =>
    unfold callsAt positions
    rw [List.map_flatMap]
    refine List.flatMap_congr fun e he => ?_
    rw [ih, List.map_map]
    refine List.map_congr_left fun p hp => ?_
    have hlen := length_of_steps (mem_selected.1 he).1
    have hparent : (if cs = [] then some pos else (holder cs p).map (pos ++ e.1 ++ ·)) =
        (holder (c :: cs) (e.1 ++ p)).map (pos ++ ·) := by
      unfold holder
      cases cs with
      | nil =>
        obtain rfl : p = [] := (mem_positions.1 hp).1
        rw [if_pos rfl, List.append_nil, hlen]
        simp
      | cons c' cs =>
        have hsome := List.getLast?_isSome.2 (List.cons_ne_nil c' cs)
        obtain ⟨d, hd⟩ := Option.isSome_iff_exists.1 hsome
        have hle := depth_le_of_matching (mem_positions.1 hp).1 hd
        rw [if_neg (List.cons_ne_nil _ _), List.getLast?_cons_cons, hd]
        simp only [Option.map_some, Option.some.injEq, List.length_append]
        rw [Nat.add_sub_assoc hle, List.take_length_add_append, List.append_assoc]
    rw [Function.comp_apply, hparent, List.append_assoc, if_neg (List.cons_ne_nil _ _)]

/-! ## The parser on a path -/

theorem strBefore_append {c : Char} {xs : List Char} (h : c ∉ xs) (ys : List Char) :
    strBefore c (xs ++ c :: ys) = xs := by
  unfold strBefore
  rw [List.takeWhile_append_of_pos, List.takeWhile_cons_of_neg (by simp), List.append_nil]
  intro x hx
  exact decide_eq_true fun he => h (he ▸ hx)

theorem strBefore_eq_self {c : Char} {xs : List Char} (h : c ∉ xs) : strBefore c xs = xs :=
  List.takeWhile_eq_self_iff.2 fun _ hx => decide_eq_true fun he => h (he ▸ hx)

theorem strBehind_append {c : Char} {xs : List Char} (h : c ∉ xs) (ys : List Char) :
    strBehind c (xs ++ c :: ys) = some ys := by
  unfold strBehind
  rw [List.dropWhile_append_of_pos, List.dropWhile_cons_of_neg (by simp)]
  intro x hx
  exact decide_eq_true fun he => h (he ▸ hx)

theorem strBehind_append_left {c : Char} {xs : List Char} (h : c ∉ xs) (ys : List Char) :
    strBehind c (xs ++ ys) = strBehind c ys := by
  unfold strBehind
  rw [List.dropWhile_append_of_pos]
  intro x hx
  exact decide_eq_true fun he => h (he ▸ hx)

theorem strBehind_eq_none {c : Char} {xs : List Char} (h : c ∉ xs) : strBehind c xs = none := by
  have hnil := strBehind_append_left h []
  rwa [List.append_nil] at hnil

namespace PathPart

variable (p : PathPart)

theorem dot_notMem_name : '.' ∉ p.name := fun h => (p.name_plain _ h).1 rfl

theorem bracket_notMem_name : '[' ∉ p.name := fun h => (p.name_plain _ h).2 rfl

/-- A bracket has an asterisk or digits in it, and none of the characters that the parser looks
for. -/
theorem notMem_bracket {p : PathPart} {b : List Char} (h : p.bracket = some b) {c : Char}
    (hc : c = '.' ∨ c = ']') : c ∉ b := by
  intro hmem
  rcases p.bracket_form b h with rfl | ⟨-, hdigit⟩
  · rw [List.mem_singleton] at hmem
    rcases hc with rfl | rfl <;> exact absurd hmem (by decide)
  · have hd := hdigit c hmem
    rcases hc with rfl | rfl <;> exact absurd hd (by decide)

theorem dot_notMem_text : '.' ∉ p.text := by
  unfold text
  cases h : p.bracket with
  | none => exact p.dot_notMem_name
  | some b =>
    simp only [List.mem_append, List.mem_cons, List.not_mem_nil, or_false, not_or]
    exact ⟨p.dot_notMem_name, by decide, notMem_bracket h (Or.inl rfl), by decide⟩

theorem strBefore_text : strBefore '[' p.text = p.name := by
  unfold text
  cases p.bracket with
  | none => exact strBefore_eq_self p.bracket_notMem_name
  | some b => exact strBefore_append p.bracket_notMem_name _

end PathPart

theorem partsText_cons (p : PathPart) (parts : List PathPart) :
    partsText (p :: parts) = '.' :: (p.text ++ partsText parts) := rfl

/-- The text behind a part is empty or begins with a dot. -/
theorem strBefore_dot_partsText {xs : List Char} (h : '.' ∉ xs) (parts : List PathPart) :
    strBefore '.' (xs ++ partsText parts) = xs := by
  cases parts with
  | nil =>
    unfold partsText
    rw [List.flatMap_nil, List.append_nil]
    exact strBefore_eq_self h
  | cons p parts =>
    rw [partsText_cons]
    exact strBefore_append h _

/-- The first bracket in the text of a path. -/
theorem strBehind_partsText (parts : List PathPart) :
    (firstBracket parts = none → strBehind '[' (partsText parts) = none) ∧
      ∀ b, firstBracket parts = some b → ']' ∉ b ∧
        ∃ rest, strBehind '[' (partsText parts) = some (b ++ ']' :: rest) := by
  induction parts with
  | nil => exact ⟨fun _ => rfl, fun b h => nomatch h⟩
  | cons p parts ih =>
    have hname : '[' ∉ '.' :: p.name := fun h => by
      rcases List.mem_cons.1 h with h | h
      · exact absurd h (by decide)
      · exact p.bracket_notMem_name h
    rw [partsText_cons]
    unfold firstBracket PathPart.text
    rw [List.findSome?_cons]
    cases hb : p.bracket with
    | none =>
      dsimp only
      rw [← List.cons_append, strBehind_append_left hname]
      exact ih
    | some b =>
      refine ⟨fun h => absurd h (Option.some_ne_none b), fun b' h => ?_⟩
      cases h
      refine ⟨PathPart.notMem_bracket hb (Or.inr rfl), partsText parts, ?_⟩
      dsimp only
      rw [List.append_assoc, List.cons_append, List.append_assoc, ← List.cons_append]
      exact strBehind_append hname _

/-- The bracket that is found behind a dot. -/
theorem strBehind_bracket (p : PathPart) (parts : List PathPart) :
    (p.bracket.or (firstBracket parts) = none →
      strBehind '[' (p.text ++ partsText parts) = none) ∧
    ∀ b, p.bracket.or (firstBracket parts) = some b →
      ∃ bracket rest, strBehind '[' (p.text ++ partsText parts) = some bracket ∧
        (if '[' ∈ p.text then strBefore '.' bracket else bracket) = b ++ ']' :: rest ∧ ']' ∉ b := by
  unfold PathPart.text
  cases hb : p.bracket with
  | none =>
    obtain ⟨hnone, hsome⟩ := strBehind_partsText parts
    dsimp only
    rw [Option.none_or, strBehind_append_left p.bracket_notMem_name]
    refine ⟨hnone, fun b h => ?_⟩
    obtain ⟨hnot, rest, hrest⟩ := hsome b h
    exact ⟨_, rest, hrest, if_neg p.bracket_notMem_name, hnot⟩
  | some b =>
    refine ⟨fun h => absurd h (Option.some_ne_none b), fun b' h => ?_⟩
    cases h
    have hdot : '.' ∉ b ++ [']'] := by
      rw [List.mem_append, List.mem_singleton, not_or]
      exact ⟨PathPart.notMem_bracket hb (Or.inl rfl), by decide⟩
    refine ⟨(b ++ [']']) ++ partsText parts, [], ?_, ?_, PathPart.notMem_bracket hb (Or.inr rfl)⟩
    · dsimp only
      rw [List.append_assoc, List.cons_append]
      exact strBehind_append p.bracket_notMem_name _
    · rw [if_pos (List.mem_append_right _ List.mem_cons_self), strBefore_dot_partsText hdot]

theorem isSpace_of_isDigit {c : Char} (h : c.isDigit = true) : RawAmount.isSpace c = false := by
  unfold RawAmount.isSpace
  simp only [Bool.or_eq_false_iff, decide_eq_false_iff_not]
  refine ⟨⟨⟨⟨⟨?_, ?_⟩, ?_⟩, ?_⟩, ?_⟩, ?_⟩ <;> rintro rfl <;> exact absurd h (by decide)

theorem scanSign_digits {b : List Char} (h : ∀ c ∈ b, c.isDigit = true) :
    scanSign b = (false, b) := by
  unfold scanSign
  split
  · exact absurd (h '-' List.mem_cons_self) (by decide)
  · exact absurd (h '+' List.mem_cons_self) (by decide)
  · rfl

theorem scanUnsigned_digits {b : List Char} (hne : b ≠ []) (h : ∀ c ∈ b, c.isDigit = true) :
    scanUnsigned b = some (unsignedOf (Nat.ofDigitChars 10 b 0)) := by
  have hdrop : b.dropWhile RawAmount.isSpace = b := by
    obtain ⟨c, cs, rfl⟩ := List.exists_cons_of_ne_nil hne
    rw [List.dropWhile_cons_of_neg]
    rw [isSpace_of_isDigit (h c List.mem_cons_self)]
    decide
  unfold scanUnsigned
  rw [hdrop, scanSign_digits h]
  dsimp only
  rw [if_neg fun hor => hor.elim hne fun hall => hall (List.all_eq_true.2 h),
    if_neg fun hand => Bool.false_ne_true hand.1]

theorem collectCalls_singleton (r : Generic × List ExpandCall) : collectCalls [r] = r := by
  obtain ⟨r, calls⟩ := r
  unfold collectCalls
  split_ifs with h
  · rw [h]
    exact congrArg (Generic.ok, ·) (List.append_nil calls)
  · rfl

theorem collectCalls_ok {α : Type} (l : List α) (f : α → Generic × List ExpandCall)
    (g : α → List ExpandCall) (h : ∀ e ∈ l, f e = (.ok, g e)) :
    collectCalls (l.map f) = (.ok, l.flatMap g) := by
  induction l with
  | nil => rfl
  | cons e l ih =>
    rw [List.map_cons, h e List.mem_cons_self, collectCalls, if_pos rfl,
      ih fun e he => h e (List.mem_cons_of_mem _ he)]
    rfl

theorem bracket_form_of_or {p : PathPart} {parts : List PathPart} {b : List Char}
    (h : p.bracket.or (firstBracket parts) = some b) :
    b = ['*'] ∨ (b ≠ [] ∧ ∀ c ∈ b, c.isDigit = true) := by
  rcases Option.or_eq_some_iff.1 h with h | ⟨-, h⟩
  · exact p.bracket_form b h
  · obtain ⟨q, -, hq⟩ := List.exists_of_findSome?_eq_some h
    exact q.bracket_form b hq

/-- One level of the recursion, on a path of the form. -/
theorem parsePath_step (n : ℕ) (obj : Json) (pos : List PathStep) {prev : Option (List PathStep)}
    {head : List Char} (hhead : '.' ∉ head) (hprev : prev = none → head = ['$']) (p : PathPart)
    (parts : List PathPart) :
    parsePath (n + 1) obj pos prev (head ++ partsText (p :: parts)) =
      collectCalls ((selected ⟨String.ofList p.name,
        (p.bracket.or (firstBracket parts)).map (selectorOf unsignedOf)⟩ obj).map fun e =>
          parsePath n e.2 (pos ++ e.1) (some pos) (p.text ++ partsText parts)) := by
  rw [partsText_cons, parsePath, strBehind_append hhead, strBefore_append hhead]
  dsimp only
  rw [if_neg fun h => h.2 (hprev h.1), strBefore_dot_partsText p.dot_notMem_text, p.strBefore_text]
  obtain ⟨hnone, hsome⟩ := strBehind_bracket p parts
  cases hb : p.bracket.or (firstBracket parts) with
  | none =>
    rw [hnone hb]
    unfold selected
    dsimp only [Option.map_none]
    cases obj.get? (String.ofList p.name) with
    | none => rfl
    | some v =>
      simp only [Option.toList_some, List.map_cons, List.map_nil, collectCalls_singleton]
  | some b =>
    obtain ⟨bracket, rest, hbracket, htext, hnot⟩ := hsome b hb
    rw [hbracket]
    dsimp only
    rw [htext, strBehind_append hnot, strBefore_append hnot]
    dsimp only [Option.map_some]
    unfold selected selectorOf
    by_cases hall : b = ['*']
    · rw [if_pos hall, if_pos hall]
      dsimp only
      rw [List.map_map]
      rfl
    · obtain ⟨hne, hdigit⟩ := (bracket_form_of_or hb).resolve_left hall
      rw [if_neg hall, if_neg hall, scanUnsigned_digits hne hdigit]
      dsimp only
      cases (arrayElements (obj.get? (String.ofList p.name)))[
          unsignedOf (Nat.ofDigitChars 10 b 0)]? with
      | none => rfl
      | some v =>
        simp only [Option.toList_some, List.map_cons, List.map_nil, collectCalls_singleton]

/-- **The calls of the parser**: those for the components as it reads them. -/
theorem parsePath_eq (parts : List PathPart) (n : ℕ) (hn : parts.length < n) (obj : Json)
    (pos : List PathStep) (prev : Option (List PathStep)) (head : List Char) (hhead : '.' ∉ head)
    (hprev : prev = none → head = ['$']) :
    parsePath n obj pos prev (head ++ partsText parts) =
      (.ok, callsAt (parts.getLast?.elim head PathPart.text) prev pos (asRead parts) obj) := by
  induction parts generalizing n obj pos prev head with
  | nil =>
    obtain ⟨m, rfl⟩ := Nat.exists_eq_succ_of_ne_zero (Nat.ne_zero_of_lt hn)
    change parsePath (m + 1) obj pos prev (head ++ []) = _
    rw [List.append_nil, parsePath, strBehind_eq_none hhead]
    rfl
  | cons p parts ih =>
    obtain ⟨m, rfl⟩ := Nat.exists_eq_succ_of_ne_zero (Nat.ne_zero_of_lt hn)
    have hm : parts.length < m := Nat.lt_of_succ_lt_succ hn
    have hlast : (p :: parts).getLast?.elim head PathPart.text =
        parts.getLast?.elim p.text PathPart.text := by
      cases parts with
      | nil => rfl
      | cons q parts =>
        rw [List.getLast?_cons_cons]
        cases h : (q :: parts).getLast? with
        | none => exact absurd (List.getLast?_eq_none_iff.1 h) (List.cons_ne_nil q parts)
        | some _ => rfl
    rw [parsePath_step m obj pos hhead hprev, hlast]
    exact collectCalls_ok _ _ _ fun e _ =>
      ih m hm e.2 (pos ++ e.1) (some pos) p.text p.dot_notMem_text fun h => nomatch h

theorem length_le_partsText (parts : List PathPart) : parts.length ≤ (partsText parts).length := by
  induction parts with
  | nil => exact Nat.zero_le _
  | cons p parts ih =>
    rw [partsText_cons, List.length_cons, List.length_cons, List.length_append]
    omega

/-- The calls for a path of the form. -/
theorem expandPath_eq (json : Json) (parts : List PathPart) :
    expandPath json (pathText parts) = (.ok, (positions (asRead parts) json).map fun p =>
      ⟨lastText parts, holder (asRead parts) p, p⟩) := by
  have hlen := length_le_partsText parts
  have hlast : lastText parts = parts.getLast?.elim ['$'] PathPart.text := by
    unfold lastText
    cases parts.getLast? <;> rfl
  have hparse := parsePath_eq parts ((pathText parts).length + 1)
    (by rw [pathText, List.length_cons]; omega) json [] none ['$'] (by decide) fun _ => rfl
  rw [← hlast, callsAt_eq] at hparse
  refine hparse.trans ?_
  refine congrArg (Generic.ok, ·) (List.map_congr_left fun p _ => ?_)
  cases asRead parts with
  | nil => rfl
  | cons c cs =>
    rw [if_neg (List.cons_ne_nil c cs), List.nil_append]
    unfold holder
    cases (c :: cs).getLast? <;> rfl

/-! ## Which paths are read as they are written -/

/-- No component without a bracket stands before one with a bracket, and the indices are machine
integers. -/
structure InOrder (parts : List PathPart) : Prop where
  brackets : parts.Pairwise fun p q => p.bracket = none → q.bracket = none
  indices : ∀ p ∈ parts, ∀ b ∈ p.bracket, b ≠ ['*'] → Nat.ofDigitChars 10 b 0 < 2 ^ 32

theorem unsignedOf_eq_self {n : ℕ} : unsignedOf n = n ↔ n < 2 ^ 32 := by
  unfold unsignedOf
  omega

theorem selectorOf_eq {b : List Char} :
    selectorOf unsignedOf b = selectorOf id b ↔
      (b ≠ ['*'] → Nat.ofDigitChars 10 b 0 < 2 ^ 32) := by
  unfold selectorOf
  by_cases h : b = ['*']
  · rw [if_pos h, if_pos h]
    exact ⟨fun _ hne => absurd h hne, fun _ => rfl⟩
  · rw [if_neg h, if_neg h, Selector.index.injEq, id, unsignedOf_eq_self]
    exact ⟨fun hlt _ => hlt, fun hlt => hlt h⟩

theorem firstBracket_eq_none {parts : List PathPart} :
    firstBracket parts = none ↔ ∀ p ∈ parts, p.bracket = none :=
  List.findSome?_eq_none_iff

/-- The parser reads the components as they are written for the paths in order. -/
theorem asRead_eq_asWritten {parts : List PathPart} :
    asRead parts = asWritten parts ↔ InOrder parts := by
  induction parts with
  | nil => exact ⟨fun _ => ⟨List.Pairwise.nil, fun _ h => nomatch h⟩, fun _ => rfl⟩
  | cons p parts ih =>
    have hhead : ((p.bracket.or (firstBracket parts)).map (selectorOf unsignedOf) =
        p.bracket.map (selectorOf id)) ↔ (p.bracket = none → ∀ q ∈ parts, q.bracket = none) ∧
          ∀ b ∈ p.bracket, b ≠ ['*'] → Nat.ofDigitChars 10 b 0 < 2 ^ 32 := by
      cases hb : p.bracket with
      | none =>
        rw [Option.none_or, Option.map_none, Option.map_eq_none_iff, firstBracket_eq_none]
        exact ⟨fun h => ⟨fun _ => h, fun b hb => nomatch hb⟩, fun h => h.1 rfl⟩
      | some b =>
        rw [Option.some_or, Option.map_some, Option.map_some, Option.some.injEq, selectorOf_eq]
        refine ⟨fun h => ⟨fun hn => absurd hn (Option.some_ne_none b), fun b' hb' => ?_⟩,
          fun h => h.2 b rfl⟩
        cases hb'
        exact h
    have hcons : asRead (p :: parts) = asWritten (p :: parts) ↔
        (p.bracket.or (firstBracket parts)).map (selectorOf unsignedOf) =
          p.bracket.map (selectorOf id) ∧ asRead parts = asWritten parts := by
      change (Component.mk _ _ :: asRead parts = Component.mk _ _ :: asWritten parts) ↔ _
      rw [List.cons.injEq, Component.mk.injEq]
      exact and_congr_left' (and_iff_right rfl)
    rw [hcons, hhead, ih]
    constructor
    · rintro ⟨⟨hnone, hindex⟩, hbrackets, hindices⟩
      refine ⟨List.pairwise_cons.2 ⟨fun q hq hn => hnone hn q hq, hbrackets⟩, ?_⟩
      exact List.forall_mem_cons.2 ⟨hindex, hindices⟩
    · rintro ⟨hbrackets, hindices⟩
      obtain ⟨hnone, hbrackets⟩ := List.pairwise_cons.1 hbrackets
      obtain ⟨hindex, hindices⟩ := List.forall_mem_cons.1 hindices
      exact ⟨⟨fun hn q hq => hnone q hq hn, hindex⟩, hbrackets, hindices⟩

theorem element_notMatching (cs : List Component) (i : ℕ) (p : List PathStep) :
    ¬ Matching cs (.element i :: p) := by
  intro h
  cases cs with
  | nil => exact absurd h (List.cons_ne_nil _ _)
  | cons c cs =>
    obtain ⟨q, r, heq, hq, -⟩ := h
    have hhead : q.head? = some (.member c.name) := by
      unfold Component.Steps at hq
      obtain ⟨name, _ | _ | i⟩ := c
      · rw [hq]
        rfl
      · obtain ⟨i, rfl⟩ := hq
        rfl
      · rw [hq]
        rfl
    cases q with
    | nil => exact nomatch hhead
    | cons s q =>
      rw [List.head?_cons, Option.some.injEq] at hhead
      rw [hhead, List.cons_append, List.cons.injEq] at heq
      exact nomatch heq.1

/-- The selectors that a position shows. -/
theorem selector_eq_of_matching {name : String} {b b' : Option (List Char)}
    {cs cs' : List Component} {p : List PathStep} (hb : ∀ x ∈ b', b = some x)
    (h : Matching (⟨name, b.map (selectorOf unsignedOf)⟩ :: cs) p)
    (h' : Matching (⟨name, b'.map (selectorOf id)⟩ :: cs') p) :
    b.map (selectorOf unsignedOf) = b'.map (selectorOf id) ∧
      ∃ r, Matching cs r ∧ Matching cs' r := by
  obtain ⟨q, r, rfl, hq, hr⟩ := h
  obtain ⟨q', r', heq, hq', hr'⟩ := h'
  unfold Component.Steps at hq hq'
  cases b' with
  | none =>
    cases b with
    | none =>
      obtain rfl : q = [.member name] := hq
      obtain rfl : q' = [.member name] := hq'
      obtain rfl : r = r' := (List.cons.inj heq).2
      exact ⟨rfl, r, hr, hr'⟩
    | some b =>
      obtain rfl : q' = [.member name] := hq'
      obtain ⟨i, rfl⟩ : ∃ i, q = [.member name, .element i] := by
        rw [Option.map_some] at hq
        cases hsel : selectorOf unsignedOf b with
        | all =>
          rw [hsel] at hq
          exact hq
        | index i =>
          rw [hsel] at hq
          exact ⟨i, hq⟩
      obtain rfl : .element i :: r = r' := (List.cons.inj heq).2
      exact absurd hr' (element_notMatching cs' i r)
  | some b' =>
    obtain rfl := hb b' rfl
    rw [Option.map_some] at hq hq'
    rw [Option.map_some, Option.map_some, Option.some.injEq]
    unfold selectorOf at hq hq' ⊢
    by_cases hall : b' = ['*']
    · rw [if_pos hall] at hq hq'
      rw [if_pos hall, if_pos hall]
      obtain ⟨i, rfl⟩ := hq
      obtain ⟨i', rfl⟩ := hq'
      obtain rfl : r = r' := (List.cons.inj (List.cons.inj heq).2).2
      exact ⟨rfl, r, hr, hr'⟩
    · rw [if_neg hall] at hq hq'
      rw [if_neg hall, if_neg hall]
      obtain rfl := hq
      obtain rfl := hq'
      have htail := List.cons.inj (List.cons.inj heq).2
      obtain rfl : r = r' := htail.2
      exact ⟨congrArg Selector.index (PathStep.element.inj htail.1), r, hr, hr'⟩

/-- A position matches the path in both readings only if they are the same. -/
theorem asRead_eq_of_matching {parts : List PathPart} {p : List PathStep}
    (h : Matching (asRead parts) p) (h' : Matching (asWritten parts) p) :
    asRead parts = asWritten parts := by
  induction parts generalizing p with
  | nil => rfl
  | cons q parts ih =>
    obtain ⟨hsel, r, hr, hr'⟩ := selector_eq_of_matching
      (fun x hx => Option.or_eq_some_iff.2 (Or.inl hx)) h h'
    change Component.mk _ _ :: asRead parts = Component.mk _ _ :: asWritten parts
    rw [hsel, ih hr hr']

/-- **When a path is expanded exactly**: the components with brackets come first and their indices
are machine integers, or the value has no position for the path in either reading. -/
theorem expanded_iff (json : Json) (parts : List PathPart) :
    Expanded json parts (expandPath json (pathText parts)) ↔
      InOrder parts ∨ ∀ p, (valueAt json p).isSome = true →
        ¬ Matching (asRead parts) p ∧ ¬ Matching (asWritten parts) p := by
  rw [expandPath_eq]
  constructor
  · rintro ⟨-, ps, -, hps, hcalls⟩
    have heq : positions (asRead parts) json = ps := by
      have hobj := congrArg (List.map ExpandCall.obj) hcalls
      rw [List.map_map, List.map_map] at hobj
      have hid : ∀ (f : List PathStep → Option (List PathStep)) (l : List (List PathStep)),
          l.map (ExpandCall.obj ∘ fun p => ⟨lastText parts, f p, p⟩) = l :=
        fun f l => List.map_id l
      rwa [hid, hid] at hobj
    by_cases hsame : asRead parts = asWritten parts
    · exact Or.inl (asRead_eq_asWritten.1 hsame)
    · refine Or.inr fun p hp => ?_
      have hiff : Matching (asRead parts) p ↔ Matching (asWritten parts) p := by
        have hread := @mem_positions (asRead parts) json p
        rw [heq, hps, and_iff_left hp, and_iff_left hp] at hread
        exact hread.symm
      exact ⟨fun h => hsame (asRead_eq_of_matching h (hiff.1 h)),
        fun h => hsame (asRead_eq_of_matching (hiff.2 h) h)⟩
  · rintro (horder | hnone)
    · rw [asRead_eq_asWritten.2 horder]
      exact ⟨rfl, positions (asWritten parts) json, nodup_positions _ json,
        fun p => mem_positions, rfl⟩
    · refine ⟨rfl, [], List.nodup_nil, fun p => ?_, ?_⟩
      · exact ⟨fun h => absurd h List.not_mem_nil, fun h => absurd h.1 (hnone p h.2).2⟩
      · have hnil : positions (asRead parts) json = [] := by
          refine List.eq_nil_iff_forall_not_mem.2 fun p hp => ?_
          obtain ⟨hmatch, hsome⟩ := mem_positions.1 hp
          exact (hnone p hsome).1 hmatch
        rw [hnil]
        rfl

/-- A component without a bracket before one with an index. -/
def laterIndex : List PathPart :=
  [⟨['a'], none, by simp, by simp⟩, ⟨['b'], some ['0'], by simp, by simp⟩]

/-- In the value {"a":{"b":[1]}}, no call is made for `$.a.b[0]`. -/
theorem not_expanded_laterIndex :
    ¬ Expanded (.object [("a", .object [("b", .array [.integer 1])])]) laterIndex
      (expandPath (.object [("a", .object [("b", .array [.integer 1])])])
        (pathText laterIndex)) := by
  rintro ⟨-, ps, -, hps, hcalls⟩
  have hnone : expandPath (.object [("a", .object [("b", .array [.integer 1])])])
      (pathText laterIndex) = (.ok, []) := rfl
  rw [hnone] at hcalls
  obtain rfl : ps = [] := List.map_eq_nil_iff.1 hcalls.symm
  refine List.not_mem_nil ((hps [.member "a", .member "b", .element 0]).2 ⟨?_, rfl⟩)
  exact ⟨[.member "a"], [.member "b", .element 0], rfl, rfl,
    [.member "b", .element 0], [], rfl, rfl, rfl⟩

end TalerExchange
