import HotIndex.Core.Types
import HotIndex.Lib.TextSearch

/-!
# Placeholders of the Configuration

`config.rs`: before a configuration is read as YAML, each `${NAME}` of its text is replaced by the
value of an environment variable. Which places of the text are placeholders depends on the text
alone (`Opens`): the values are put out as they are, and so is all text between placeholders
(`expandEnvPlaceholders_exact`).
-/

namespace HotIndex

open Lib

/-! ## The loop -/

/-- `std::env::VarError` -/
inductive VarError where
  | notPresent
  | notUnicode
  deriving DecidableEq, Repr

/-- `std::env::var`, for the environment of the process. -/
abbrev Environment := String → Except VarError String

/-- The loop of `expand_env_placeholders`. `rest` is the text that is not looked at yet. -/
def expandFrom (env : Environment) (rest output : List Char) :
    Except HotIndexError (List Char) :=
  match _hstart : find ['$', '{'] rest with
  | none => .ok (output ++ rest)
  | some start =>
    let afterStart := rest.drop (start + 2)
    match find ['}'] afterStart with
    | none => .error (.config "unterminated environment placeholder")
    | some stop =>
      let name := String.ofList (afterStart.take stop)
      if name.isEmpty then .error (.config "empty environment placeholder")
      else
        match env name with
        | .error _ => .error (.config s!"missing required environment variable: {name}")
        -- what is put out is not looked at again
        | .ok value =>
          expandFrom env (afterStart.drop (stop + 1)) (output ++ rest.take start ++ value.toList)
termination_by rest.length
decreasing_by
  have hopening := (find_eq_some_iff.1 _hstart).2.1.length_le
  simp only [List.length_cons, List.length_nil, List.length_drop] at hopening ⊢
  omega

/-- `expand_env_placeholders` -/
def expandEnvPlaceholders (env : Environment) (input : String) : Except HotIndexError String :=
  (expandFrom env input.toList []).map String.ofList

/-! ## Where placeholders are -/

/-- Between the opening at `start` and `place` there is a closing brace. -/
def ClosedBefore (text : List Char) (start place : Nat) : Prop :=
  ∃ stop, start + 2 ≤ stop ∧ stop < place ∧ text[stop]? = some '}'

/-- At `start` there is an opening that is not inside an earlier placeholder. -/
def Opens (text : List Char) (start : Nat) : Prop :=
  ['$', '{'] <+: text.drop start ∧
    ∀ earlier, earlier < start → Opens text earlier → ClosedBefore text earlier start
termination_by start

/-- Behind the opening at `start`, the text up to the first closing brace is `name`. -/
structure NamesAt (text : List Char) (start : Nat) (name : List Char) : Prop where
  closed : name ++ ['}'] <+: text.drop (start + 2)
  first : '}' ∉ name

/-- A part of a text, as it is expanded. -/
inductive TextPart where
  | verbatim (text : List Char)
  | placeholder (name : List Char)

namespace TextPart

/-- The part as it stands in the text. -/
def source : TextPart → List Char
  | verbatim text => text
  | placeholder name => ['$', '{'] ++ name ++ ['}']

/-- The part as it is put out. -/
def expanded (env : Environment) : TextPart → List Char
  | verbatim text => text
  | placeholder name =>
    match env (String.ofList name) with
    | .ok value => value.toList
    | .error _ => []

end TextPart

/-- The places of the placeholders among some parts, the first of which stands at `place`. -/
def placeholderStarts (place : Nat) : List TextPart → List Nat
  | [] => []
  | .verbatim text :: rest => placeholderStarts (place + text.length) rest
  | .placeholder name :: rest => place :: placeholderStarts (place + name.length + 3) rest

/-- The text consists of these parts, and its placeholders are the openings. -/
structure SplitsAtPlaceholders (text : List Char) (parts : List TextPart) : Prop where
  source : parts.flatMap TextPart.source = text
  starts : ∀ start, start ∈ placeholderStarts 0 parts ↔ Opens text start
  names : ∀ name, .placeholder name ∈ parts → '}' ∉ name

/-! ## The first opening -/

section First

variable {text : List Char} {start stop : Nat}

theorem opens_def (place : Nat) : Opens text place ↔ ['$', '{'] <+: text.drop place ∧
    ∀ earlier < place, Opens text earlier → ClosedBefore text earlier place := by
  rw [Opens]

/-- Without the two letters there is no opening. -/
theorem not_opens_of_find_none (h : find ['$', '{'] text = none) (place : Nat) :
    ¬ Opens text place := by
  rw [opens_def]
  exact fun hopens => find_eq_none_iff.1 h place hopens.1

/-- The first place with the two letters is an opening. -/
theorem opens_of_find (h : find ['$', '{'] text = some start) : Opens text start := by
  obtain ⟨-, hhere, hbefore⟩ := find_eq_some_iff.1 h
  rw [opens_def]
  refine ⟨hhere, fun earlier hearlier hopens => ?_⟩
  rw [opens_def] at hopens
  exact absurd hopens.1 (hbefore earlier hearlier)

/-- All others are behind it. -/
theorem le_of_opens (h : find ['$', '{'] text = some start) {place : Nat}
    (hopens : Opens text place) : start ≤ place := by
  rw [opens_def] at hopens
  by_contra hlt
  exact (find_eq_some_iff.1 h).2.2 place (not_le.1 hlt) hopens.1

/-- The name up to the first closing brace. -/
theorem namesAt_of_find (h : find ['}'] (text.drop (start + 2)) = some stop) :
    NamesAt text start ((text.drop (start + 2)).take stop) := by
  obtain ⟨hle, hhere, hbefore⟩ := find_eq_some_iff.1 h
  constructor
  · obtain ⟨rest, hrest⟩ := hhere
    refine ⟨rest, ?_⟩
    rw [List.append_assoc, hrest, List.take_append_drop]
  · intro hmem
    obtain ⟨i, hi, hletter⟩ := List.mem_take_iff_getElem.1 hmem
    refine hbefore i (lt_of_lt_of_le hi (min_le_left _ _)) (singleton_prefix_drop_iff.2 ?_)
    rw [List.getElem?_eq_getElem (lt_of_lt_of_le hi (min_le_right _ _)), hletter]

/-- A name ends at the first closing brace. -/
theorem NamesAt.find_eq {name : List Char} (h : NamesAt text start name) :
    find ['}'] (text.drop (start + 2)) = some name.length := by
  obtain ⟨rest, hrest⟩ := h.closed
  rw [← hrest, find_eq_some_iff]
  refine ⟨by simp, ⟨rest, by simp⟩, fun i hi hprefix => h.first ?_⟩
  rw [singleton_prefix_drop_iff, List.append_assoc, List.getElem?_append_left hi] at hprefix
  exact List.mem_of_getElem? hprefix

/-- One opening has one name. -/
theorem NamesAt.unique {name name' : List Char} (h : NamesAt text start name)
    (h' : NamesAt text start name') : name = name' := by
  have hlength : name.length = name'.length := Option.some.inj (h.find_eq.symm.trans h'.find_eq)
  obtain ⟨rest, hrest⟩ := h.closed
  obtain ⟨rest', hrest'⟩ := h'.closed
  rw [← hrest', List.append_assoc, List.append_assoc] at hrest
  exact List.append_inj_left hrest hlength

/-- Behind a placeholder, the openings are those of the rest of the text. -/
theorem opens_iff_of_closed (hstart : find ['$', '{'] text = some start)
    (hstop : find ['}'] (text.drop (start + 2)) = some stop) (place : Nat) :
    Opens text place ↔ place = start ∨
      ∃ later, place = start + stop + 3 + later ∧ Opens (text.drop (start + stop + 3)) later := by
  obtain ⟨-, hbrace, hfirst⟩ := find_eq_some_iff.1 hstop
  rw [singleton_prefix_drop_iff, List.getElem?_drop] at hbrace
  have hrest : ∀ i, (text.drop (start + stop + 3))[i]? = text[start + stop + 3 + i]? :=
    fun i => List.getElem?_drop
  induction place using Nat.strong_induction_on with
  | _ place ih =>
    constructor
    · intro hopens
      rcases (le_of_opens hstart hopens).eq_or_lt with heq | hlt
      · exact .inl heq.symm
      · right
        rw [opens_def] at hopens
        -- the first placeholder is closed before
        obtain ⟨close, hle, hbefore, hclose⟩ := hopens.2 start hlt (opens_of_find hstart)
        have hbehind : start + stop + 3 ≤ place := by
          by_contra hinside
          refine hfirst (close - (start + 2)) (by omega) (singleton_prefix_drop_iff.2 ?_)
          rw [List.getElem?_drop, Nat.add_sub_cancel' hle, hclose]
        obtain ⟨later, rfl⟩ := Nat.exists_eq_add_of_le hbehind
        refine ⟨later, rfl, ?_⟩
        rw [opens_def, List.drop_drop]
        refine ⟨hopens.1, fun earlier hearlier hopens' => ?_⟩
        obtain ⟨close', hle', hbefore', hclose'⟩ := hopens.2 (start + stop + 3 + earlier)
          (by omega) ((ih _ (by omega)).2 (.inr ⟨earlier, rfl, hopens'⟩))
        refine ⟨close' - (start + stop + 3), by omega, by omega, ?_⟩
        rw [hrest, Nat.add_sub_cancel' (by omega), hclose']
    · rintro (rfl | ⟨later, rfl, hopens⟩)
      · exact opens_of_find hstart
      · rw [opens_def, List.drop_drop] at hopens
        rw [opens_def]
        refine ⟨hopens.1, fun earlier hearlier hopens' => ?_⟩
        rcases (ih earlier hearlier).1 hopens' with heq | ⟨earlier', rfl, hopens''⟩
        · exact ⟨start + 2 + stop, by omega, by omega, hbrace⟩
        · obtain ⟨close, hle, hbefore, hclose⟩ := hopens.2 earlier' (by omega) hopens''
          exact ⟨start + stop + 3 + close, by omega, by omega, by rw [← hrest, hclose]⟩

/-- What stands behind a placeholder is named as in the whole text. -/
theorem namesAt_drop_iff {n later : Nat} {name : List Char} :
    NamesAt (text.drop n) later name ↔ NamesAt text (n + later) name := by
  constructor
  · rintro ⟨hclosed, hfirst⟩
    rw [List.drop_drop, ← Nat.add_assoc] at hclosed
    exact ⟨hclosed, hfirst⟩
  · rintro ⟨hclosed, hfirst⟩
    rw [Nat.add_assoc, ← List.drop_drop] at hclosed
    exact ⟨hclosed, hfirst⟩

/-- A text with a placeholder is what stands before, the placeholder and what stands behind. -/
theorem text_eq_of_closed (hstart : find ['$', '{'] text = some start)
    (hstop : find ['}'] (text.drop (start + 2)) = some stop) :
    text.take start ++ ((['$', '{'] ++ (text.drop (start + 2)).take stop ++ ['}']) ++
      text.drop (start + stop + 3)) = text := by
  obtain ⟨after, hafter⟩ := (find_eq_some_iff.1 hstart).2.1
  obtain ⟨behind, hbehind⟩ := (find_eq_some_iff.1 hstop).2.1
  -- behind the opening comes the name, behind the name the brace
  have hopening : text.drop (start + 2) = after := by
    rw [← List.drop_drop, ← hafter]
    rfl
  have hrest : text.drop (start + stop + 3) = behind := by
    rw [show start + stop + 3 = start + 2 + (stop + 1) by omega, ← List.drop_drop,
      ← List.drop_drop, ← hbehind]
    rfl
  calc text.take start ++ ((['$', '{'] ++ (text.drop (start + 2)).take stop ++ ['}']) ++
        text.drop (start + stop + 3))
      = text.take start ++ (['$', '{'] ++ ((text.drop (start + 2)).take stop ++
          ['}'] ++ behind)) := by simp only [hrest, List.append_assoc]
    _ = text.take start ++ (['$', '{'] ++ text.drop (start + 2)) := by
        rw [List.append_assoc ((text.drop (start + 2)).take stop), hbehind,
          List.take_append_drop]
    _ = text.take start ++ text.drop start := by rw [hopening, hafter]
    _ = text := List.take_append_drop start text

end First

/-- A text has no placeholder, or its first one is not closed, or there is a rest behind it. -/
theorem placeholder_induction {P : List Char → Prop}
    (none : ∀ text, find ['$', '{'] text = none → P text)
    (unterminated : ∀ text start, find ['$', '{'] text = some start →
      find ['}'] (text.drop (start + 2)) = Option.none → P text)
    (closed : ∀ text start stop, find ['$', '{'] text = some start →
      find ['}'] (text.drop (start + 2)) = some stop → P (text.drop (start + stop + 3)) → P text)
    (text : List Char) : P text := by
  induction hlength : text.length using Nat.strong_induction_on generalizing text with
  | _ length ih =>
    cases hstart : find ['$', '{'] text with
    | none => exact none text hstart
    | some start =>
      cases hstop : find ['}'] (text.drop (start + 2)) with
      | none => exact unterminated text start hstart hstop
      | some stop =>
        -- what stands behind a placeholder is shorter
        refine closed text start stop hstart hstop (ih _ ?_ _ rfl)
        have hopening := (find_eq_some_iff.1 hstart).2.1.length_le
        simp only [List.length_cons, List.length_nil, List.length_drop] at hopening ⊢
        omega

/-! ## The names are defined -/

/-- Every opening is closed, and names a variable of the environment. -/
def AllDefined (env : Environment) (text : List Char) : Prop :=
  ∀ start, Opens text start →
    ∃ name value, NamesAt text start name ∧ name ≠ [] ∧ env (String.ofList name) = .ok value

section Run

variable {env : Environment} {text : List Char} {start stop : Nat}

theorem allDefined_iff_of_closed (hstart : find ['$', '{'] text = some start)
    (hstop : find ['}'] (text.drop (start + 2)) = some stop) :
    AllDefined env text ↔
      ((text.drop (start + 2)).take stop ≠ [] ∧
        ∃ value, env (String.ofList ((text.drop (start + 2)).take stop)) = .ok value) ∧
      AllDefined env (text.drop (start + stop + 3)) := by
  constructor
  · intro hall
    constructor
    · -- the first placeholder, which has one name only
      obtain ⟨name, value, hname, hnonempty, hvalue⟩ := hall start (opens_of_find hstart)
      rw [(namesAt_of_find hstop).unique hname]
      exact ⟨hnonempty, value, hvalue⟩
    · intro later hopens
      obtain ⟨name, value, hname, hdefined⟩ := hall (start + stop + 3 + later)
        ((opens_iff_of_closed hstart hstop _).2 (.inr ⟨later, rfl, hopens⟩))
      exact ⟨name, value, namesAt_drop_iff.2 hname, hdefined⟩
  · rintro ⟨⟨hnonempty, value, hvalue⟩, hrest⟩ place hopens
    -- an opening is the first one, or one of the rest of the text
    rcases (opens_iff_of_closed hstart hstop place).1 hopens with rfl | ⟨later, rfl, hlater⟩
    · exact ⟨_, value, namesAt_of_find hstop, hnonempty, hvalue⟩
    · obtain ⟨name, value', hname, hdefined⟩ := hrest later hlater
      exact ⟨name, value', namesAt_drop_iff.1 hname, hdefined⟩

theorem not_allDefined_of_unterminated (hstart : find ['$', '{'] text = some start)
    (hstop : find ['}'] (text.drop (start + 2)) = none) : ¬ AllDefined env text := by
  intro hall
  obtain ⟨name, value, hname, -⟩ := hall start (opens_of_find hstart)
  rw [hname.find_eq] at hstop
  cases hstop

/-! ## What the loop does -/

theorem expandFrom_of_none (h : find ['$', '{'] text = none) (output : List Char) :
    expandFrom env text output = .ok (output ++ text) := by
  rw [expandFrom]
  split
  · rfl
  · simp_all

theorem expandFrom_of_unterminated (hstart : find ['$', '{'] text = some start)
    (hstop : find ['}'] (text.drop (start + 2)) = none) (output : List Char) :
    expandFrom env text output = .error (.config "unterminated environment placeholder") := by
  rw [expandFrom]
  split
  · simp_all
  · rename_i start' hstart'
    obtain rfl : start = start' := Option.some.inj (hstart.symm.trans hstart')
    simp only [hstop]

/-- A closed placeholder is replaced, if its name is defined. -/
theorem expandFrom_of_closed (hstart : find ['$', '{'] text = some start)
    (hstop : find ['}'] (text.drop (start + 2)) = some stop) (output : List Char) :
    expandFrom env text output =
      let name := String.ofList ((text.drop (start + 2)).take stop)
      if name.isEmpty then .error (.config "empty environment placeholder")
      else
        match env name with
        | .error _ => .error (.config s!"missing required environment variable: {name}")
        | .ok value => expandFrom env (text.drop (start + stop + 3))
            (output ++ text.take start ++ value.toList) := by
  rw [expandFrom]
  split
  · simp_all
  · rename_i start' hstart'
    obtain rfl : start = start' := Option.some.inj (hstart.symm.trans hstart')
    -- the code skips the opening, the name and the brace one by one
    have hbehind : start + 2 + (stop + 1) = start + stop + 3 := by omega
    simp only [hstop, List.drop_drop, hbehind]

/-- The loop succeeds exactly if every opening is closed and names a variable. -/
theorem expandFrom_isOk_iff (text output : List Char) :
    (∃ expanded, expandFrom env text output = .ok expanded) ↔ AllDefined env text := by
  -- on the placeholders of the text
  induction text using placeholder_induction generalizing output with
  | none text hstart =>
    rw [expandFrom_of_none hstart]
    exact iff_of_true ⟨_, rfl⟩ fun place hopens =>
      absurd hopens (not_opens_of_find_none hstart place)
  | unterminated text start hstart hstop =>
    rw [expandFrom_of_unterminated hstart hstop]
    exact iff_of_false nofun (not_allDefined_of_unterminated hstart hstop)
  | closed text start stop hstart hstop ih =>
    rw [expandFrom_of_closed hstart hstop, allDefined_iff_of_closed hstart hstop]
    generalize (text.drop (start + 2)).take stop = name
    have hempty : (String.ofList name).isEmpty = true ↔ name = [] := by simp
    simp only [hempty]
    split_ifs with hname
    · simp [hname]
    · cases hvalue : env (String.ofList name) with
      | error error => simp
      | ok value => simp [ih, hname]

theorem placeholderStarts_add (place offset : Nat) (parts : List TextPart) :
    placeholderStarts (place + offset) parts =
      (placeholderStarts offset parts).map (place + ·) := by
  induction parts generalizing offset with
  | nil => rfl
  | cons part rest ih =>
    cases part with
    | verbatim text =>
      rw [placeholderStarts, placeholderStarts, Nat.add_assoc, ih]
    | placeholder name =>
      rw [placeholderStarts, placeholderStarts, List.map_cons, Nat.add_assoc, Nat.add_assoc,
        ← Nat.add_assoc offset, ih]

/-- The split of the rest of a text and its first placeholder split the text. -/
theorem SplitsAtPlaceholders.of_closed (hstart : find ['$', '{'] text = some start)
    (hstop : find ['}'] (text.drop (start + 2)) = some stop) {parts : List TextPart}
    (h : SplitsAtPlaceholders (text.drop (start + stop + 3)) parts) :
    SplitsAtPlaceholders text (.verbatim (text.take start) ::
      .placeholder ((text.drop (start + 2)).take stop) :: parts) := by
  have hbefore : (text.take start).length = start := by
    simpa using (find_eq_some_iff.1 hstart).1
  have hname : ((text.drop (start + 2)).take stop).length = stop := by
    simpa using (find_eq_some_iff.1 hstop).1
  constructor
  · rw [List.flatMap_cons, List.flatMap_cons, h.source]
    exact text_eq_of_closed hstart hstop
  · intro place
    -- the later parts start behind the text of the first two
    rw [opens_iff_of_closed hstart hstop, placeholderStarts, placeholderStarts, hbefore, hname,
      Nat.zero_add, List.mem_cons, ← Nat.add_zero (start + stop + 3), placeholderStarts_add,
      List.mem_map]
    simp only [h.starts, Nat.add_zero]
    exact or_congr Iff.rfl (exists_congr fun later => by rw [and_comm, eq_comm])
  · intro name hmem
    rcases List.mem_cons.1 hmem with hverbatim | hmem
    · cases hverbatim
    · rcases List.mem_cons.1 hmem with hfirst | hmem
      · cases hfirst
        exact (namesAt_of_find hstop).first
      · exact h.names name hmem

end Run

/-- What the loop puts out is the text, split at its placeholders, with the values in place of
the names. The split does not depend on the environment. -/
theorem exists_parts (text : List Char) :
    ∃ parts, ∀ env output expanded, expandFrom env text output = .ok expanded →
      SplitsAtPlaceholders text parts ∧
        expanded = output ++ parts.flatMap (TextPart.expanded env) := by
  induction text using placeholder_induction with
  | none text hstart =>
    refine ⟨[.verbatim text], fun env output expanded h => ⟨⟨?_, ?_, ?_⟩, ?_⟩⟩
    · simp [TextPart.source]
    · intro start
      exact iff_of_false (by simp [placeholderStarts]) (not_opens_of_find_none hstart start)
    · simp
    · rw [expandFrom_of_none hstart] at h
      rw [← Except.ok.inj h]
      simp [TextPart.expanded]
  -- an unterminated placeholder is an error, whatever the environment
  | unterminated text start hstart hstop =>
    refine ⟨[], fun env output expanded h => ?_⟩
    rw [expandFrom_of_unterminated hstart hstop] at h
    cases h
  | closed text start stop hstart hstop ih =>
    obtain ⟨parts, hparts⟩ := ih
    -- the parts are chosen before the environment is
    refine ⟨.verbatim (text.take start) ::
      .placeholder ((text.drop (start + 2)).take stop) :: parts, fun env output expanded h => ?_⟩
    rw [expandFrom_of_closed hstart hstop] at h
    simp only at h
    split_ifs at h
    cases hvalue : env (String.ofList ((text.drop (start + 2)).take stop)) with
    | error error =>
      rw [hvalue] at h
      cases h
    | ok value =>
      rw [hvalue] at h
      obtain ⟨hsplits, hexpanded⟩ := hparts env _ expanded h
      refine ⟨hsplits.of_closed hstart hstop, ?_⟩
      rw [hexpanded, List.flatMap_cons, List.flatMap_cons]
      simp [TextPart.expanded, hvalue]

/-- **Placeholder expansion.** It succeeds if and only if every opening that is not inside an
earlier placeholder is closed, and the text up to the first closing brace is a name that the
environment defines. Then the output is the text with exactly these placeholders replaced by
the values. -/
theorem expandEnvPlaceholders_exact (input : String) :
    (∀ env, (∃ output, expandEnvPlaceholders env input = .ok output) ↔
      ∀ start, Opens input.toList start →
        ∃ name value, NamesAt input.toList start name ∧ name ≠ [] ∧
          env (String.ofList name) = .ok value) ∧
    ∃ parts, ∀ env output, expandEnvPlaceholders env input = .ok output →
      SplitsAtPlaceholders input.toList parts ∧
        output = String.ofList (parts.flatMap (TextPart.expanded env)) := by
  constructor
  · intro env
    refine Iff.trans ?_ (expandFrom_isOk_iff input.toList [])
    unfold expandEnvPlaceholders
    cases expandFrom env input.toList [] with
    | error error => exact iff_of_false nofun nofun
    | ok expanded => exact iff_of_true ⟨_, rfl⟩ ⟨_, rfl⟩
  · -- one list of parts for all environments
    obtain ⟨parts, hparts⟩ := exists_parts input.toList
    refine ⟨parts, fun env output h => ?_⟩
    unfold expandEnvPlaceholders at h
    cases hrun : expandFrom env input.toList [] with
    | error error =>
      rw [hrun] at h
      cases h
    | ok expanded =>
      rw [hrun] at h
      obtain ⟨hsplits, hexpanded⟩ := hparts env [] expanded hrun
      rw [List.nil_append] at hexpanded
      exact ⟨hsplits, by rw [← Except.ok.inj h, hexpanded]⟩

/-- A value that looks like a placeholder is put out as it is. -/
example : (expandEnvPlaceholders (fun _ => .ok "$\x7bB\x7d") "x$\x7bA\x7dy").toOption =
    some "x$\x7bB\x7dy" := by
  decide +kernel

end HotIndex
