import Mathlib.Data.List.DropRight
import Mathlib.Data.List.Infix
import Mathlib.Tactic

/-!
# Unix Paths

Paths as texts, as Rust's `std::path` reads them: the components of a path, which pass over
empty parts and dots; taking a base off a path, which compares components but returns what
is left of the text; joining; and the file that a path leads to from a working directory, in a
file system without links.

A path is *plain* if all of its parts are names. What is joined to a base by a plain path is
taken off again as it was (`stripPrefix_join`), and leads below the base (`resolve_join`).
-/

namespace HotIndex.Lib.UnixPath

/-! ## Components -/

/-- `std::path::Component` -/
inductive Component where
  | rootDir
  | curDir
  | parentDir
  | normal (name : List Char)
  deriving DecidableEq, Repr

/-- What a part between slashes stands for, if anything. -/
def component? : List Char → Option Component
  | [] => none
  | ['.'] => none
  | ['.', '.'] => some .parentDir
  | name => some (.normal name)

/-- A slash at the start, and a dot that is the first part, are components of their own. -/
def startComponent (path : List Char) : Option Component :=
  if path.head? = some '/' then some .rootDir
  else if path = ['.'] ∨ ['.', '/'] <+: path then some .curDir
  else none

/-- The character of the component at the start. -/
def startText (path : List Char) : List Char :=
  path.take (startComponent path).toList.length

/-- The parts behind the component at the start. -/
def bodyParts (path : List Char) : List (List Char) :=
  (path.drop (startComponent path).toList.length).splitOn '/'

/-- The components that some parts stand for. -/
def partComponents (parts : List (List Char)) : List Component := parts.filterMap component?

/-- `Path::components` -/
def components (path : List Char) : List Component :=
  (startComponent path).toList ++ partComponents (bodyParts path)

/-- Parts with slashes between them. -/
def joinParts (parts : List (List Char)) : List Char := ['/'].intercalate parts

/-- The part stands for no component. -/
def isTrivial (part : List Char) : Bool := (component? part).isNone

/-- `Components::trim_left` -/
def trimLeft (parts : List (List Char)) : List (List Char) := parts.dropWhile isTrivial

/-- `Components::trim_right` -/
def trimRight (parts : List (List Char)) : List (List Char) := parts.rdropWhile isTrivial

/-! ## Operations -/

/-- `Path::is_absolute` -/
def isAbsolute (path : List Char) : Bool := path.head? == some '/'

/-- `Path::join` -/
def join (base path : List Char) : List Char :=
  if isAbsolute path then path
  else if base = [] ∨ base.getLast? = some '/' then base ++ path
  else base ++ '/' :: path

/-- The parts behind the first so many components. -/
def dropComponents : Nat → List (List Char) → List (List Char)
  | 0, parts => parts
  | _ + 1, [] => []
  | n + 1, part :: parts =>
    if isTrivial part then dropComponents (n + 1) parts else dropComponents n parts

/-- `Path::strip_prefix`. What is left is a piece of the text, without trivial parts at either
end of it. -/
def stripPrefix (path base : List Char) : Option (List Char) :=
  let taken := components base
  if taken = [] then some (startText path ++ joinParts (trimRight (bodyParts path)))
  else if taken <+: components path then
    let n := taken.length - (startComponent path).toList.length
    some (joinParts (trimRight (trimLeft (dropComponents n (bodyParts path)))))
  else none

/-- `Path::file_name` -/
def fileName (path : List Char) : Option (List Char) :=
  match (components path).getLast? with
  | some (.normal name) => some name
  | _ => none

/-- `Path::parent` -/
def parent (path : List Char) : Option (List Char) :=
  match (components path).getLast? with
  | none | some .rootDir => none
  -- without a body, the component at the start is the last
  | some .curDir => some []
  | some _ => some (startText path ++ joinParts (trimRight (trimRight (bodyParts path)).dropLast))

/-- One component further in the file system. -/
def step (at_ : List (List Char)) : Component → List (List Char)
  | .rootDir => []
  | .curDir => at_
  | .parentDir => at_.dropLast
  | .normal name => at_ ++ [name]

/-- The names that lead from the root to what a path leads to, seen from a directory. -/
def resolve (cwd path : List Char) : List (List Char) :=
  (components cwd ++ components path).foldl step []

/-- The part is a name. -/
def IsName (part : List Char) : Prop := component? part = some (.normal part)

instance (part : List Char) : Decidable (IsName part) := inferInstanceAs (Decidable (_ = _))

/-- All parts of the path are names, with single slashes between them. -/
def Plain (path : List Char) : Prop := ∀ part ∈ path.splitOn '/', IsName part

instance (path : List Char) : Decidable (Plain path) := inferInstanceAs (Decidable (∀ _ ∈ _, _))

/-! ## Parts -/

theorem not_mem_of_mem_splitOn {l part : List Char} (h : part ∈ l.splitOn '/') : '/' ∉ part := by
  induction l generalizing part with
  | nil =>
    rw [List.splitOn_nil, List.mem_singleton] at h
    simp [h]
  | cons c l ih =>
    rw [List.splitOn_cons_eq_if_modifyHead] at h
    split_ifs at h with hc
    · rcases List.mem_cons.1 h with rfl | h
      · exact List.not_mem_nil
      · exact ih h
    · -- the character goes to the first part of the rest
      rcases List.exists_cons_of_ne_nil (List.splitOn_ne_nil '/' l) with ⟨first, rest, hl⟩
      rw [hl, List.modifyHead_cons] at h
      rcases List.mem_cons.1 h with rfl | h
      · have hfirst : '/' ∉ first := ih (by rw [hl]; exact List.mem_cons_self)
        simp only [beq_iff_eq] at hc
        simp [Ne.symm hc, hfirst]
      · exact ih (by rw [hl]; exact List.mem_cons_of_mem _ h)

theorem joinParts_splitOn (path : List Char) : joinParts (path.splitOn '/') = path :=
  List.intercalate_splitOn '/'

theorem splitOn_joinParts {parts : List (List Char)} (h : ∀ part ∈ parts, '/' ∉ part)
    (hne : parts ≠ []) : (joinParts parts).splitOn '/' = parts :=
  List.splitOn_intercalate '/' h hne

@[simp] theorem partComponents_append (l m : List (List Char)) :
    partComponents (l ++ m) = partComponents l ++ partComponents m := List.filterMap_append

theorem partComponents_eq_nil {parts : List (List Char)} (h : ∀ part ∈ parts, isTrivial part) :
    partComponents parts = [] := by
  rw [partComponents, List.filterMap_eq_nil_iff]
  exact fun part hpart => Option.isNone_iff_eq_none.1 (h part hpart)

/-- Trimming takes away parts that stand for nothing. -/
theorem partComponents_trimLeft (parts : List (List Char)) :
    partComponents (trimLeft parts) = partComponents parts := by
  conv_rhs => rw [← List.takeWhile_append_dropWhile (p := isTrivial) (l := parts)]
  rw [partComponents_append, partComponents_eq_nil fun part hpart => List.mem_takeWhile_imp hpart]
  rfl

theorem partComponents_trimRight (parts : List (List Char)) :
    partComponents (trimRight parts) = partComponents parts := by
  have hsplit : parts.rdropWhile isTrivial ++ parts.rtakeWhile isTrivial = parts :=
    List.rdropWhile_append_rtakeWhile
  conv_rhs => rw [← hsplit]
  rw [partComponents_append, partComponents_eq_nil fun part hpart => List.mem_rtakeWhile_imp hpart,
    List.append_nil]
  rfl

/-! ## Components of composed paths -/

theorem startComponent_append_sep (b t : List Char) :
    startComponent (b ++ '/' :: t) = startComponent (b ++ ['/']) := by
  rcases b with _ | ⟨c, _ | ⟨d, b⟩⟩ <;> simp [startComponent]

theorem startComponent_concat_sep {b : List Char} (h : b ≠ []) :
    startComponent (b ++ ['/']) = startComponent b := by
  rcases b with _ | ⟨c, _ | ⟨d, b⟩⟩
  · exact absurd rfl h
  · by_cases hdot : c = '.' <;> simp [startComponent, hdot, eq_comm]
  · simp [startComponent]

theorem length_startComponent_le (path : List Char) :
    (startComponent path).toList.length ≤ 1 := by
  cases startComponent path <;> simp

/-- A slash at the end of a text adds no component. -/
theorem partComponents_splitOn_concat_sep (b : List Char) :
    partComponents ((b ++ ['/']).splitOn '/') = partComponents (b.splitOn '/') := by
  rw [List.splitOn_append_cons_self, List.splitOn_nil, partComponents_append]
  exact List.append_nil _

/-- The parts behind a slash come last, and the others are those of the path that ends with
the slash. -/
theorem bodyParts_append_sep (b t : List Char) :
    ∃ parts, bodyParts (b ++ '/' :: t) = parts ++ t.splitOn '/' ∧
      partComponents parts = partComponents (bodyParts (b ++ ['/'])) := by
  unfold bodyParts
  rw [startComponent_append_sep]
  rcases b with _ | ⟨c, b⟩
  · exact ⟨[], rfl, rfl⟩
  · -- the component at the start is within the base
    cases startComponent (c :: b ++ ['/']) with
    | none =>
      refine ⟨(c :: b).splitOn '/', List.splitOn_append_cons_self (c :: b) t, ?_⟩
      exact (partComponents_splitOn_concat_sep (c :: b)).symm
    | some start =>
      refine ⟨b.splitOn '/', List.splitOn_append_cons_self b t, ?_⟩
      exact (partComponents_splitOn_concat_sep b).symm

theorem partComponents_bodyParts_concat_sep {b : List Char} (h : b ≠ []) :
    partComponents (bodyParts (b ++ ['/'])) = partComponents (bodyParts b) := by
  unfold bodyParts
  rw [startComponent_concat_sep h]
  rcases b with _ | ⟨c, b⟩
  · exact absurd rfl h
  · cases startComponent (c :: b) with
    | none => exact partComponents_splitOn_concat_sep (c :: b)
    | some start => exact partComponents_splitOn_concat_sep b

/-- What stands behind a slash adds the components of its parts. -/
theorem components_append_sep (b t : List Char) :
    components (b ++ '/' :: t) = components (b ++ ['/']) ++ partComponents (t.splitOn '/') := by
  rcases bodyParts_append_sep b t with ⟨parts, hparts, hsame⟩
  unfold components
  rw [startComponent_append_sep, hparts, partComponents_append, hsame, List.append_assoc]

/-! ## Plain paths -/

theorem isName_iff {part : List Char} :
    IsName part ↔ part ≠ [] ∧ part ≠ ['.'] ∧ part ≠ ['.', '.'] := by
  unfold IsName component?
  split <;> simp_all

theorem IsName.not_trivial {part : List Char} (h : IsName part) : isTrivial part = false := by
  unfold isTrivial
  rw [h]
  rfl

theorem partComponents_names {parts : List (List Char)} (h : ∀ part ∈ parts, IsName part) :
    partComponents parts = parts.map .normal := by
  induction parts with
  | nil => rfl
  | cons part parts ih =>
    rw [partComponents, List.filterMap_cons_some (h part List.mem_cons_self), List.map_cons,
      ← partComponents, ih fun part hpart => h part (List.mem_cons_of_mem _ hpart)]

theorem Plain.ne_nil {path : List Char} (h : Plain path) : path ≠ [] := by
  rintro rfl
  exact absurd (h [] List.mem_cons_self) (by decide)

/-- A plain path begins with a name. -/
theorem Plain.startComponent_eq_none {path : List Char} (h : Plain path) :
    startComponent path = none := by
  rcases path with _ | ⟨c, _ | ⟨d, path⟩⟩
  · rfl
  · -- a slash makes the first part empty, and a dot is no name
    by_cases hslash : c = '/'
    · subst hslash
      exact absurd (h [] (by decide)) (by decide)
    · by_cases hdot : c = '.'
      · subst hdot
        exact absurd (h ['.'] (by decide)) (by decide)
      · simp [startComponent, hslash, hdot]
  · by_cases hslash : c = '/'
    · subst hslash
      refine absurd (h [] ?_) (by decide)
      rw [List.splitOn_cons_eq_if_modifyHead]
      simp
    · by_cases hdot : c = '.' ∧ d = '/'
      · rcases hdot with ⟨rfl, rfl⟩
        refine absurd (h ['.'] ?_) (by decide)
        simp [List.splitOn_cons_eq_if_modifyHead]
      · have hprefix' : ¬ ['.', '/'] <+: c :: d :: path := by
          simpa [eq_comm] using hdot
        simp [startComponent, hslash, hprefix']

theorem Plain.not_isAbsolute {path : List Char} (h : Plain path) : isAbsolute path = false := by
  have hstart := h.startComponent_eq_none
  unfold startComponent at hstart
  split_ifs at hstart with hslash
  simpa [isAbsolute] using hslash

theorem Plain.components_eq {path : List Char} (h : Plain path) :
    components path = (path.splitOn '/').map .normal := by
  unfold components bodyParts
  rw [h.startComponent_eq_none]
  exact partComponents_names h

/-- A plain path comes behind a slash when it is joined to a base. -/
theorem exists_join {base path : List Char} (h : Plain path) (hbase : base ≠ []) :
    ∃ b, join base path = b ++ '/' :: path ∧
      startComponent (b ++ ['/']) = startComponent base ∧
      partComponents (bodyParts (b ++ ['/'])) = partComponents (bodyParts base) := by
  unfold join
  rw [h.not_isAbsolute, if_neg (by simp)]
  split_ifs with hslash
  · rcases List.eq_nil_or_concat' base with rfl | ⟨b, c, rfl⟩
    · exact absurd rfl hbase
    · -- the slash is there already
      have hc : c = '/' := by simpa using hslash
      subst hc
      exact ⟨b, by simp, rfl, rfl⟩
  · exact ⟨base, rfl, startComponent_concat_sep hbase, partComponents_bodyParts_concat_sep hbase⟩

/-- A plain path that is joined to a base adds its names. -/
theorem components_join {base path : List Char} (h : Plain path) :
    components (join base path) = components base ++ (path.splitOn '/').map .normal := by
  by_cases hbase : base = []
  · -- nothing is put between an empty base and the path
    subst hbase
    have hjoin : join [] path = path := by simp [join, h.not_isAbsolute]
    rw [hjoin, h.components_eq]
    rfl
  · rcases exists_join h hbase with ⟨b, hjoin, hstart, hbody⟩
    rw [hjoin, components_append_sep, partComponents_names h]
    unfold components
    rw [hstart, hbody]

/-! ## Taking a base off -/

theorem isTrivial_of_eq_none {part : List Char} (h : component? part = none) :
    isTrivial part = true := by rw [isTrivial, h]; rfl

theorem isTrivial_of_eq_some {part : List Char} {c : Component} (h : component? part = some c) :
    ¬ isTrivial part = true := by rw [isTrivial, h]; exact nofun

/-- Behind the components of some parts, only trivial parts are left of them. -/
theorem trimLeft_dropComponents (parts rest : List (List Char)) :
    trimLeft (dropComponents (partComponents parts).length (parts ++ rest)) = trimLeft rest := by
  induction parts with
  | nil => simp [partComponents, dropComponents]
  | cons part parts ih =>
    -- a trivial part is passed over, any other is one component
    cases hc : component? part with
    | none =>
      have hcomponents : partComponents (part :: parts) = partComponents parts :=
        List.filterMap_cons_none hc
      rw [hcomponents, ← ih, List.cons_append]
      cases (partComponents parts).length with
      | zero =>
        simp only [dropComponents, trimLeft]
        rw [List.dropWhile_cons_of_pos (isTrivial_of_eq_none hc)]
      | succ n => rw [dropComponents, if_pos (isTrivial_of_eq_none hc)]
    | some c =>
      have hcomponents : partComponents (part :: parts) = c :: partComponents parts :=
        List.filterMap_cons_some hc
      rw [hcomponents, List.length_cons, List.cons_append, dropComponents,
        if_neg (isTrivial_of_eq_some hc), ih]

/-- The parts behind the first components stand for the other components. -/
theorem partComponents_dropComponents (n : Nat) (parts : List (List Char)) :
    partComponents (dropComponents n parts) = (partComponents parts).drop n := by
  -- a trivial part takes no component with it
  induction parts generalizing n with
  | nil => cases n <;> simp [dropComponents, partComponents]
  | cons part parts ih =>
    cases n with
    | zero => simp [dropComponents]
    | succ n =>
      rw [dropComponents]
      cases hc : component? part with
      | none =>
        rw [if_pos (isTrivial_of_eq_none hc), ih, partComponents, partComponents,
          List.filterMap_cons_none hc]
      | some c =>
        rw [if_neg (isTrivial_of_eq_some hc), ih, partComponents, partComponents,
          List.filterMap_cons_some hc, List.drop_succ_cons]

theorem mem_of_mem_dropComponents {n : Nat} {parts : List (List Char)} {part : List Char}
    (h : part ∈ dropComponents n parts) : part ∈ parts := by
  induction parts generalizing n with
  | nil => cases n <;> simp [dropComponents] at h
  | cons first parts ih =>
    cases n with
    | zero => exact h
    | succ n =>
      rw [dropComponents] at h
      split_ifs at h
      · exact List.mem_cons_of_mem _ (ih h)
      · exact List.mem_cons_of_mem _ (ih h)

/-! ## Pieces of a path -/

theorem joinParts_cons (part : List Char) {parts : List (List Char)} (h : parts ≠ []) :
    joinParts (part :: parts) = part ++ '/' :: joinParts parts := by
  rcases List.exists_cons_of_ne_nil h with ⟨first, rest, rfl⟩
  simp [joinParts]

@[simp] theorem joinParts_singleton (part : List Char) : joinParts [part] = part := by
  simp [joinParts]

@[simp] theorem joinParts_nil : joinParts [] = [] := rfl

/-- What follows the first part begins with a slash, if there is anything. -/
theorem exists_joinParts_cons (part : List Char) (parts : List (List Char)) :
    ∃ tail, joinParts (part :: parts) = part ++ tail ∧ (tail = [] ∨ tail.head? = some '/') := by
  cases parts with
  | nil => exact ⟨[], by simp, .inl rfl⟩
  | cons first rest => exact ⟨_, joinParts_cons part (List.cons_ne_nil _ _), .inr rfl⟩

/-- A path does not begin with a component of its own if its first part is a name. -/
theorem startComponent_joinParts {part : List Char} {parts : List (List Char)}
    (hslash : '/' ∉ part) (hne : part ≠ []) (hdot : part ≠ ['.']) :
    startComponent (joinParts (part :: parts)) = none := by
  rcases exists_joinParts_cons part parts with ⟨tail, heq, htail⟩
  rw [heq]
  rcases part with _ | ⟨c, _ | ⟨d, part⟩⟩
  · exact absurd rfl hne
  · simp only [List.mem_singleton] at hslash
    simp only [ne_eq, List.cons.injEq, and_true] at hdot
    simp [startComponent, hdot, Ne.symm hdot, Ne.symm hslash]
  · simp only [List.mem_cons, not_or] at hslash
    simp [startComponent, Ne.symm hslash.1, hslash.2.1]

/-- The three ways a path can begin. -/
theorem start_cases (path : List Char) :
    (startComponent path = none ∧ startText path = [] ∧ bodyParts path = path.splitOn '/') ∨
    (∃ t : List Char, startComponent path = some .rootDir ∧ startText path = ['/'] ∧
      bodyParts path = t.splitOn '/') ∨
    (∃ t : List Char, (t = [] ∨ t.head? = some '/') ∧ startComponent path = some .curDir ∧
      startText path = ['.'] ∧ bodyParts path = t.splitOn '/') := by
  unfold startText bodyParts
  cases hstart : startComponent path with
  | none => exact .inl ⟨rfl, rfl, rfl⟩
  | some c =>
    right
    unfold startComponent at hstart
    -- a slash comes before a dot
    split_ifs at hstart with hslash hdot
    · cases hstart
      rcases List.head?_eq_some_iff.1 hslash with ⟨t, rfl⟩
      exact .inl ⟨t, rfl, rfl, rfl⟩
    · cases hstart
      rcases hdot with rfl | ⟨t, rfl⟩
      · exact .inr ⟨[], .inl rfl, rfl, rfl, rfl⟩
      · exact .inr ⟨'/' :: t, .inr rfl, rfl, rfl, rfl⟩

/-- The first part of a path that begins with neither a slash nor a dot. -/
theorem first_part {path part : List Char} {parts : List (List Char)}
    (hstart : startComponent path = none) (hpath : path ≠ [])
    (hparts : path.splitOn '/' = part :: parts) : part ≠ [] ∧ part ≠ ['.'] := by
  rcases exists_joinParts_cons part parts with ⟨tail, heq, htail⟩
  rw [← hparts, joinParts_splitOn] at heq
  constructor
  · -- an empty first part is a slash in front
    rintro rfl
    rcases htail with rfl | htail
    · exact hpath heq
    · rw [heq, List.nil_append, startComponent, if_pos htail] at hstart
      cases hstart
  · -- a dot in front is a component of its own
    rintro rfl
    rcases htail with rfl | htail
    · rw [heq] at hstart
      cases hstart
    · rcases List.head?_eq_some_iff.1 htail with ⟨t, rfl⟩
      rw [heq] at hstart
      simp [startComponent] at hstart

/-- Behind a dot at the start comes a slash, so the first part is empty. -/
theorem first_part_of_dot {t part : List Char} {parts : List (List Char)}
    (ht : t = [] ∨ t.head? = some '/') (hparts : part :: parts = t.splitOn '/') : part = [] := by
  rcases ht with rfl | ht
  · rw [List.splitOn_nil] at hparts
    exact (List.cons.inj hparts).1
  · rcases List.head?_eq_some_iff.1 ht with ⟨t, rfl⟩
    rw [List.splitOn_cons_eq_if_modifyHead, if_pos (by rfl)] at hparts
    exact (List.cons.inj hparts).1

/-- Some parts from the start of a path, the last of them a component, have their components. -/
theorem components_piece {path : List Char} {parts : List (List Char)}
    (hparts : parts <+: bodyParts path)
    (hlast : ∀ hne : parts ≠ [], ¬ isTrivial (parts.getLast hne) = true) :
    components (startText path ++ joinParts parts) =
      (startComponent path).toList ++ partComponents parts := by
  have hslash : ∀ part ∈ parts, '/' ∉ part :=
    fun part hpart => not_mem_of_mem_splitOn (hparts.subset hpart)
  by_cases hnil : parts = []
  · -- only the component at the start is left
    subst hnil
    rcases start_cases path with ⟨hstart, htext, _⟩ | ⟨t, hstart, htext, _⟩ |
      ⟨t, _, hstart, htext, _⟩ <;> rw [hstart, htext] <;> rfl
  · have hsplit := splitOn_joinParts hslash hnil
    rcases start_cases path with ⟨hstart, htext, hbody⟩ | ⟨t, hstart, htext, _⟩ |
      ⟨t, ht, hstart, htext, hbody⟩
    · -- a path without a component at its start begins with its first part
      rcases List.exists_cons_of_ne_nil hnil with ⟨part, rest, rfl⟩
      rcases hparts with ⟨more, hmore⟩
      rw [hbody, List.cons_append] at hmore
      have hpath : path ≠ [] := by
        rintro rfl
        rw [List.splitOn_nil, List.cons.injEq, List.append_eq_nil_iff] at hmore
        rcases hmore with ⟨rfl, rfl, rfl⟩
        exact hlast (List.cons_ne_nil _ _) rfl
      rcases first_part hstart hpath hmore.symm with ⟨hne, hdot⟩
      have hnone := @startComponent_joinParts part rest (hslash part List.mem_cons_self) hne hdot
      rw [htext, hstart, List.nil_append, components, bodyParts, hnone]
      exact congrArg partComponents hsplit
    · rw [hstart, htext, List.singleton_append, ← List.nil_append ('/' :: joinParts parts),
        components_append_sep, hsplit]
      rfl
    · rcases List.exists_cons_of_ne_nil hnil with ⟨part, rest, rfl⟩
      rcases hparts with ⟨more, hmore⟩
      rw [hbody, List.cons_append] at hmore
      cases first_part_of_dot ht hmore
      have hrest : rest ≠ [] := by
        rintro rfl
        exact hlast (List.cons_ne_nil _ _) rfl
      have hsplit' := splitOn_joinParts
        (fun part hpart => hslash part (List.mem_cons_of_mem _ hpart)) hrest
      rw [hstart, htext, joinParts_cons _ hrest, List.nil_append, components_append_sep, hsplit']
      rfl

/-- Only the empty path has no components. -/
theorem components_eq_nil_iff {path : List Char} : components path = [] ↔ path = [] := by
  constructor
  · intro h
    unfold components at h
    rcases List.append_eq_nil_iff.1 h with ⟨hstart, hbody⟩
    have hnone : startComponent path = none := by simpa using hstart
    by_contra hne
    -- the first part is neither empty nor a dot, so it is a component
    rcases List.exists_cons_of_ne_nil (List.splitOn_ne_nil '/' path) with ⟨part, rest, hsplit⟩
    rcases first_part hnone hne hsplit with ⟨hpart, hdot⟩
    have hmem : part ∈ bodyParts path := by
      unfold bodyParts
      rw [hnone]
      exact hsplit ▸ List.mem_cons_self
    have htrivial := List.filterMap_eq_nil_iff.1 hbody part hmem
    unfold component? at htrivial
    split at htrivial <;> simp_all
  · rintro rfl
    rfl

theorem trimRight_subset {parts : List (List Char)} {part : List Char}
    (h : part ∈ trimRight parts) : part ∈ parts :=
  (List.rdropWhile_prefix isTrivial parts).subset h

theorem trimLeft_subset {parts : List (List Char)} {part : List Char}
    (h : part ∈ trimLeft parts) : part ∈ parts :=
  (List.dropWhile_suffix isTrivial).subset h

theorem trimRight_last {parts init : List (List Char)} {last : List Char}
    (h : trimRight parts = init ++ [last]) : ¬ isTrivial last = true := by
  have hne : parts.rdropWhile isTrivial ≠ [] := by
    rw [show parts.rdropWhile isTrivial = _ from h]
    simp
  have hnot := List.rdropWhile_last_not isTrivial parts hne
  simpa [show parts.rdropWhile isTrivial = _ from h] using hnot

/-- Trimming the body of a path changes no component. -/
theorem components_trimRight (path : List Char) :
    components (startText path ++ joinParts (trimRight (bodyParts path))) = components path := by
  have hpiece := components_piece (List.rdropWhile_prefix isTrivial (bodyParts path))
    (List.rdropWhile_last_not isTrivial (bodyParts path))
  have hsame := partComponents_trimRight (bodyParts path)
  unfold trimRight at hsame ⊢
  rw [hpiece, hsame]
  rfl

/-- What is taken off a path with a base, if it is plain, are the names behind the base. -/
theorem components_of_stripPrefix {path base rest : List Char}
    (h : stripPrefix path base = some rest) (hplain : Plain rest) :
    components path = components base ++ (rest.splitOn '/').map .normal := by
  unfold stripPrefix at h
  simp only at h
  split_ifs at h with hnil htaken
  · rw [hnil, List.nil_append, ← hplain.components_eq, ← Option.some.inj h, components_trimRight]
  · have hrest := Option.some.inj h
    set parts := trimRight (trimLeft (dropComponents
      ((components base).length - (startComponent path).toList.length) (bodyParts path)))
    have hslash : ∀ part ∈ parts, '/' ∉ part := fun part hpart => not_mem_of_mem_splitOn
      (mem_of_mem_dropComponents (trimLeft_subset (trimRight_subset hpart)))
    have hne : parts ≠ [] := by
      intro hparts
      rw [hparts] at hrest
      exact hplain.ne_nil hrest.symm
    have hsplit : rest.splitOn '/' = parts := by rw [← hrest, splitOn_joinParts hslash hne]
    -- the component at the start is one of the base
    have hstart : (startComponent path).toList.length ≤ (components base).length :=
      (length_startComponent_le path).trans (List.length_pos_iff.2 hnil)
    -- what is left stands for the components behind those of the base
    have hbehind : partComponents parts = (components path).drop (components base).length := by
      rw [partComponents_trimRight, partComponents_trimLeft, partComponents_dropComponents]
      have hpath : components path =
          (startComponent path).toList ++ partComponents (bodyParts path) := rfl
      rw [hpath, List.drop_append, List.drop_eq_nil_of_le hstart, List.nil_append]
    have hnames : partComponents parts = parts.map .normal :=
      partComponents_names fun part hpart => hplain part (hsplit ▸ hpart)
    rw [hsplit, ← hnames, hbehind]
    exact (List.prefix_iff_eq_append.1 htaken).symm

theorem trimLeft_names {parts : List (List Char)} (h : ∀ part ∈ parts, IsName part) :
    trimLeft parts = parts := by
  cases parts with
  | nil => rfl
  | cons part parts =>
    have hfirst := (h part List.mem_cons_self).not_trivial
    exact List.dropWhile_cons_of_neg (by simp [hfirst])

theorem trimRight_names {parts : List (List Char)} (h : ∀ part ∈ parts, IsName part) :
    trimRight parts = parts := by
  apply List.rdropWhile_eq_self_iff.2
  intro hne
  simp [(h _ (List.getLast_mem hne)).not_trivial]

/-- What a plain path joins to a base is taken off as it was. -/
theorem stripPrefix_join {base path : List Char} (h : Plain path) :
    stripPrefix (join base path) base = some path := by
  have hcomponents := @components_join base path h
  unfold stripPrefix
  simp only
  split_ifs with hnil htaken
  · -- an empty base takes nothing off, and nothing is trimmed
    rw [components_eq_nil_iff.1 hnil]
    have hjoin : join [] path = path := by simp [join, h.not_isAbsolute]
    have hstart := h.startComponent_eq_none
    have hbody : bodyParts path = path.splitOn '/' := by rw [bodyParts, hstart]; rfl
    have htext : startText path = [] := by rw [startText, hstart]; rfl
    rw [hjoin, hbody, htext, trimRight_names h, List.nil_append, joinParts_splitOn]
  · have hbase : base ≠ [] := fun hbase => hnil (components_eq_nil_iff.2 hbase)
    rcases exists_join h hbase with ⟨b, hjoin, hstart, hbody⟩
    rcases bodyParts_append_sep b path with ⟨parts, hparts, hsame⟩
    -- the components that are passed over are those of the parts of the base
    have hcount : (components base).length - (startComponent (join base path)).toList.length =
        (partComponents parts).length := by
      rw [hjoin, startComponent_append_sep, hstart, hsame, hbody, components, List.length_append]
      omega
    rw [hcount, hjoin, hparts, trimLeft_dropComponents, trimLeft_names h, trimRight_names h,
      joinParts_splitOn]
  · exact absurd (hcomponents ▸ List.prefix_append _ _) htaken

/-- The parent of a path with a file name is the path without it. -/
theorem exists_parent {path name : List Char} (h : fileName path = some name) :
    ∃ par, parent path = some par ∧ components path = components par ++ [.normal name] := by
  have hlast : (components path).getLast? = some (.normal name) := by
    unfold fileName at h
    split at h
    · rename_i found hfound
      rw [hfound, Option.some.inj h]
    · cases h
  unfold parent
  rw [hlast]
  refine ⟨_, rfl, ?_⟩
  have hsame := partComponents_trimRight (bodyParts path)
  rcases List.eq_nil_or_concat' (trimRight (bodyParts path)) with hnil | ⟨parts, part, hconcat⟩
  · -- a path without a body ends with the component at its start
    rw [hnil] at hsame
    rw [components, ← hsame] at hlast
    rcases start_cases path with ⟨hstart, _⟩ | ⟨t, hstart, _⟩ | ⟨t, _, hstart, _⟩ <;>
      simp [hstart, partComponents] at hlast
  · cases hc : component? part with
    | none => exact absurd (isTrivial_of_eq_none hc) (trimRight_last hconcat)
    | some c =>
      have hpath : components path =
          ((startComponent path).toList ++ partComponents parts) ++ [c] := by
        have hpart : partComponents [part] = [c] := List.filterMap_cons_some hc
        rw [components, ← hsame, hconcat, partComponents_append, hpart, List.append_assoc]
      rw [hpath, List.getLast?_concat, Option.some.injEq] at hlast
      -- the text up to the last name is trimmed once more
      have hpiece : parts <+: bodyParts path :=
        List.IsPrefix.trans ⟨[part], hconcat.symm⟩ (List.rdropWhile_prefix isTrivial _)
      have hpar := components_piece ((List.rdropWhile_prefix isTrivial parts).trans hpiece)
        (List.rdropWhile_last_not isTrivial parts)
      have htrim : partComponents (parts.rdropWhile isTrivial) = partComponents parts :=
        partComponents_trimRight parts
      rw [hconcat, List.dropLast_concat, hpath, ← hlast, ← htrim]
      unfold trimRight
      rw [hpar]

/-! ## Where a path leads -/

theorem foldl_step_names (at_ names : List (List Char)) :
    (names.map Component.normal).foldl step at_ = at_ ++ names := by
  induction names generalizing at_ with
  | nil => simp
  | cons name names ih =>
    rw [List.map_cons, List.foldl_cons, ih]
    exact List.append_cons _ _ _ |>.symm

/-- Names behind a base lead below what the base leads to. -/
theorem resolve_of_components {cwd path base : List Char} {names : List (List Char)}
    (h : components path = components base ++ names.map .normal) :
    resolve cwd path = resolve cwd base ++ names := by
  unfold resolve
  rw [h, ← List.append_assoc, List.foldl_append, foldl_step_names]

theorem resolve_join {cwd base path : List Char} (h : Plain path) :
    resolve cwd (join base path) = resolve cwd base ++ path.splitOn '/' :=
  resolve_of_components (components_join h)

/-- A plain path leads below the working directory. -/
theorem resolve_plain {cwd path : List Char} (h : Plain path) :
    resolve cwd path = resolve cwd [] ++ path.splitOn '/' :=
  resolve_of_components h.components_eq

theorem not_mem_of_mem_components {path name : List Char}
    (h : Component.normal name ∈ components path) : '/' ∉ name := by
  rcases List.mem_append.1 h with h | h
  · -- the component at the start is no name
    rcases start_cases path with ⟨hstart, _⟩ | ⟨t, hstart, _⟩ | ⟨t, _, hstart, _⟩ <;>
      simp [hstart] at h
  · rcases List.mem_filterMap.1 h with ⟨part, hpart, hc⟩
    have heq : part = name := by
      unfold component? at hc
      split at hc <;> simp_all
    exact heq ▸ not_mem_of_mem_splitOn hpart

/-- On the way along some components, the names are those met so far. -/
theorem mem_foldl_step {cs : List Component} {at_ : List (List Char)} {name : List Char}
    (h : name ∈ cs.foldl step at_) : name ∈ at_ ∨ Component.normal name ∈ cs := by
  induction cs generalizing at_ with
  | nil => exact .inl h
  | cons c cs ih =>
    rcases ih h with h | h
    · -- only a name adds to the directory, and `..` takes away
      cases c with
      | rootDir => cases h
      | curDir => exact .inl h
      | parentDir => exact .inl (List.mem_of_mem_dropLast h)
      | normal first =>
        rcases List.mem_append.1 h with h | h
        · exact .inl h
        · rw [List.mem_singleton.1 h]
          exact .inr List.mem_cons_self
    · exact .inr (List.mem_cons_of_mem _ h)

/-- The names on the way have no slashes. -/
theorem not_mem_of_mem_resolve {cwd path name : List Char} (h : name ∈ resolve cwd path) :
    '/' ∉ name := by
  rcases mem_foldl_step h with h | h
  · cases h
  · rcases List.mem_append.1 h with h | h
    · exact not_mem_of_mem_components h
    · exact not_mem_of_mem_components h

end HotIndex.Lib.UnixPath
