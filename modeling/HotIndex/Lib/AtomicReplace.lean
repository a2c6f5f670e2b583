import Mathlib.Data.List.Flatten
import Mathlib.Data.List.Infix
import Mathlib.Logic.Function.Basic

/-!
# Replacing Files

A disk whose caches a power failure loses. Contents are kept once their file is synced, and
directory entries once their directory is; of the entry changes behind that, any part may get
lost.

A file is replaced by writing a temporary file beside it, syncing that, renaming it, and syncing
the directory (`replaceOps`). Wherever a power failure strikes, the files that are not temporary
are those of before or those of behind the replacement (`survives_replace`), and so of a prefix of
several replacements (`survives_replaceAll`).
-/

namespace HotIndex.Lib

open Function

/-! ## Disks -/

/-- A change of directory entries. -/
inductive EntryChange (κ : Type*) where
  | link (name : κ) (inode : Nat)
  | move (source target : κ) (inode : Nat)

/-- A disk as its users see it, and what of it a power failure keeps. -/
structure Disk (κ β : Type*) where
  entries : κ → Option Nat
  contents : Nat → List β
  /-- The contents that are on the medium -/
  synced : Nat → Bool
  /-- The entries that are on the medium -/
  stored : κ → Option Nat
  /-- The changes since -/
  pending : List (EntryChange κ)
  /-- The next inode that is free -/
  fresh : Nat

/-- A system call of a process that writes files. -/
inductive FileOp (κ δ β : Type*) where
  /-- Creates a file or truncates it -/
  | create (name : κ)
  | append (name : κ) (bytes : List β)
  | syncFile (name : κ)
  | rename (source target : κ)
  | syncDir (dir : δ)

section Disks

variable {κ δ β : Type*} [DecidableEq κ] [DecidableEq δ]

namespace EntryChange

def apply (entries : κ → Option Nat) : EntryChange κ → κ → Option Nat
  | link name inode => update entries name (some inode)
  | move source target inode => update (update entries source none) target (some inode)

/-- The name that the change makes. -/
def name : EntryChange κ → κ
  | link name _ => name
  | move _ target _ => target

end EntryChange

namespace Disk

def read (disk : Disk κ β) (name : κ) : Option (List β) := (disk.entries name).map disk.contents

variable (dirOf : κ → δ)

def apply (disk : Disk κ β) : FileOp κ δ β → Disk κ β
  | .create name =>
    match disk.entries name with
    | some inode =>
      { disk with
        contents := update disk.contents inode []
        synced := update disk.synced inode false }
    | none =>
      { disk with
        entries := update disk.entries name (some disk.fresh)
        contents := update disk.contents disk.fresh []
        synced := update disk.synced disk.fresh false
        pending := disk.pending ++ [.link name disk.fresh]
        fresh := disk.fresh + 1 }
  | .append name bytes =>
    match disk.entries name with
    | some inode =>
      { disk with
        contents := update disk.contents inode (disk.contents inode ++ bytes)
        synced := update disk.synced inode false }
    | none => disk
  | .syncFile name =>
    match disk.entries name with
    | some inode => { disk with synced := update disk.synced inode true }
    | none => disk
  | .rename source target =>
    match disk.entries source with
    | some inode =>
      { disk with
        entries := EntryChange.apply disk.entries (.move source target inode)
        pending := disk.pending ++ [.move source target inode] }
    | none => disk
  | .syncDir dir =>
    { disk with
      stored := (disk.pending.filter (fun change => dirOf change.name = dir)).foldl
        EntryChange.apply disk.stored
      pending := disk.pending.filter (fun change => dirOf change.name ≠ dir) }

def run (disk : Disk κ β) (ops : List (FileOp κ δ β)) : Disk κ β := ops.foldl (apply dirOf) disk

end Disk

/-- What a power failure leaves: any of the pending changes, and of the files that were not synced
any contents. -/
structure PowerFailure (disk failed : Disk κ β) : Prop where
  entries : ∃ kept : List (EntryChange κ), kept.Sublist disk.pending ∧
    failed.entries = kept.foldl EntryChange.apply disk.stored
  contents : ∀ inode, disk.synced inode = true → failed.contents inode = disk.contents inode
  synced : ∀ inode, failed.synced inode = true
  stored : failed.stored = failed.entries
  pending : failed.pending = []
  fresh : failed.fresh = disk.fresh

/-! ## Settled disks -/

/-- Nothing that matters is only cached: all entries are stored, and the files with a final name
are synced. There are no hard links. -/
structure Disk.Settled (final : κ → Prop) (disk : Disk κ β) : Prop where
  pending : disk.pending = []
  stored : disk.stored = disk.entries
  synced : ∀ name, final name → ∀ inode, disk.entries name = some inode → disk.synced inode = true
  single : ∀ name other inode, disk.entries name = some inode → disk.entries other = some inode →
    name = other
  fresh : ∀ name inode, disk.entries name = some inode → inode < disk.fresh

/-- The files with a final name. -/
def Disk.Shows (final : κ → Prop) (disk : Disk κ β) (files : κ → Option (List β)) : Prop :=
  ∀ name, final name → disk.read name = files name

/-- The disk shows the files of one of the stages, and settles on those of one of them if the
power fails. -/
structure Disk.Survives (final : κ → Prop) (disk : Disk κ β)
    (stage : (κ → Option (List β)) → Prop) : Prop where
  visible : ∃ files, stage files ∧ disk.Shows final files
  failed : ∀ failed, PowerFailure disk failed →
    failed.Settled final ∧ ∃ files, stage files ∧ failed.Shows final files

/-! ## The temporary file -/

/-- The temporary file is being written: its inode is the only one that has changed. -/
structure Staged (before disk : Disk κ β) (temp : κ) (inode : Nat) : Prop where
  stored : disk.stored = before.stored
  others : ∀ other ≠ inode, disk.contents other = before.contents other ∧
    disk.synced other = before.synced other
  unshared : ∀ name ≠ temp, before.entries name ≠ some inode
  fresh : before.fresh ≤ disk.fresh ∧ inode < disk.fresh

/-- The temporary file is there. -/
structure Linked (before disk : Disk κ β) (temp : κ) (inode : Nat) (content : List β) : Prop
    extends Staged before disk temp inode where
  entries : disk.entries = update before.entries temp (some inode)
  content : disk.contents inode = content
  /-- It was left behind by an earlier run, or it is new -/
  pending : disk.pending = [] ∧ before.entries temp = some inode ∨
    disk.pending = [.link temp inode]

/-- The temporary file is renamed. -/
structure Renamed (before disk : Disk κ β) (temp target : κ) (inode : Nat) (content : List β) : Prop
    extends Staged before disk temp inode where
  entries : disk.entries = update (update before.entries temp none) target (some inode)
  content : disk.contents inode = content
  synced : disk.synced inode = true
  pending : disk.pending = [.move temp target inode] ∨
    disk.pending = [.link temp inode, .move temp target inode]

section Replace

variable {final : κ → Prop} {before disk failed : Disk κ β} {temp target : κ} {inode : Nat}
  {content : List β} {dirOf : κ → δ} {files : κ → Option (List β)}

omit [DecidableEq κ] in
/-- A file of before is still there wherever its entry is, on what keeps the synced contents. -/
theorem Staged.read_eq (h : Staged before disk temp inode) (hbefore : before.Settled final)
    {kept : Disk κ β} (hkept : ∀ inode, disk.synced inode = true →
      kept.contents inode = disk.contents inode) {name : κ} (hname : name ≠ temp)
    (hfinal : final name) (hentries : kept.entries name = before.entries name) :
    kept.read name = before.read name := by
  rw [Disk.read, Disk.read, hentries]
  cases hentry : before.entries name with
  | none => rfl
  | some other =>
    -- no final name shares the inode of the temporary file
    have hother : other ≠ inode := fun he => h.unshared name hname (he ▸ hentry)
    obtain ⟨hcontents, hsynced⟩ := h.others other hother
    rw [hbefore.synced name hfinal other hentry] at hsynced
    exact congrArg some ((hkept other hsynced).trans hcontents)

/-- Entries that point to the temporary file from one name only leave no hard links. -/
theorem Staged.single_update (h : Staged before disk temp inode) (hbefore : before.Settled final)
    {entries : κ → Option Nat} {made : κ}
    (hentries : ∀ name ≠ made, entries name = before.entries name ∧ name ≠ temp ∨
      entries name = none) (hmade : entries made = some inode) :
    (∀ name other shared, entries name = some shared → entries other = some shared →
      name = other) ∧ ∀ name shared, entries name = some shared → shared < disk.fresh := by
  -- every other name has a file of before, which is not the temporary one
  have hold : ∀ name ≠ made, ∀ shared, entries name = some shared →
      before.entries name = some shared ∧ shared ≠ inode := by
    intro name hname shared hshared
    rcases hentries name hname with ⟨hsame, htemp⟩ | hnone
    · rw [hsame] at hshared
      exact ⟨hshared, fun he => h.unshared name htemp (he ▸ hshared)⟩
    · rw [hnone] at hshared
      cases hshared
  constructor
  · intro name other shared hname hother
    by_cases hn : name = made
    · by_cases ho : other = made
      · rw [hn, ho]
      · rw [hn, hmade] at hname
        exact absurd (Option.some.inj hname).symm (hold other ho shared hother).2
    · by_cases ho : other = made
      · rw [ho, hmade] at hother
        exact absurd (Option.some.inj hother).symm (hold name hn shared hname).2
      · exact hbefore.single name other shared (hold name hn shared hname).1
          (hold other ho shared hother).1
  · intro name shared hshared
    by_cases hn : name = made
    · rw [hn, hmade] at hshared
      exact Option.some.inj hshared ▸ h.fresh.2
    · exact (hbefore.fresh name shared (hold name hn shared hshared).1).trans_le h.fresh.1

/-- What a power failure leaves while the temporary file is there. -/
theorem Linked.failed_entries (h : Linked before disk temp inode content)
    (hbefore : before.Settled final) (hfail : PowerFailure disk failed) :
    failed.entries = before.entries ∨
      failed.entries = update before.entries temp (some inode) := by
  obtain ⟨kept, hkept, hentries⟩ := hfail.entries
  rw [h.stored, hbefore.stored] at hentries
  -- the one change that may be lost is the link
  rcases h.pending with ⟨hpending, -⟩ | hpending
  · rw [hpending, List.sublist_nil] at hkept
    rw [hkept] at hentries
    exact .inl hentries
  · rw [hpending, List.sublist_singleton] at hkept
    rcases hkept with rfl | rfl
    · exact .inl hentries
    · exact .inr hentries

/-- What a power failure leaves behind the rename. -/
theorem Renamed.failed_entries (h : Renamed before disk temp target inode content)
    (hbefore : before.Settled final) (hfail : PowerFailure disk failed) :
    failed.entries = before.entries ∨
      failed.entries = update before.entries temp (some inode) ∨
        failed.entries = update (update before.entries temp none) target (some inode) := by
  obtain ⟨kept, hkept, hentries⟩ := hfail.entries
  rw [h.stored, hbefore.stored] at hentries
  -- the rename is pending, and the link may be: each is kept or lost
  rcases h.pending with hpending | hpending
  · rw [hpending, List.sublist_singleton] at hkept
    rcases hkept with rfl | rfl
    · exact .inl hentries
    · exact .inr (.inr hentries)
  · rw [hpending, List.sublist_cons_iff] at hkept
    rcases hkept with hkept | ⟨rest, rfl, hkept⟩
    · rcases List.sublist_singleton.1 hkept with rfl | rfl
      · exact .inl hentries
      · exact .inr (.inr hentries)
    · rcases List.sublist_singleton.1 hkept with rfl | rfl
      · exact .inr (.inl hentries)
      · -- the rename takes the link away again
        refine .inr (.inr ?_)
        rw [hentries]
        simp only [List.foldl_cons, List.foldl_nil, EntryChange.apply, update_idem]

/-- A power failure that keeps the entries of before, or of the temporary file, keeps the
files. -/
theorem Staged.failed_before (h : Staged before disk temp inode) (hbefore : before.Settled final)
    (htemp : ¬ final temp) (hshows : before.Shows final files) (hfail : PowerFailure disk failed)
    (hentries : failed.entries = before.entries ∨
      failed.entries = update before.entries temp (some inode)) :
    failed.Settled final ∧ failed.Shows final files := by
  -- the temporary name is not final, so nothing that is looked up has changed
  have hsame : ∀ name ≠ temp, failed.entries name = before.entries name := by
    intro name hname
    rcases hentries with hentries | hentries
    · rw [hentries]
    · rw [hentries, update_of_ne hname]
  refine ⟨⟨hfail.pending, hfail.stored, fun _ _ inode _ => hfail.synced inode, ?_, ?_⟩, ?_⟩
  · rcases hentries with hentries | hentries
    · rw [hentries]
      exact hbefore.single
    · exact (h.single_update hbefore (fun name hname => .inl ⟨hsame name hname, hname⟩)
        (by rw [hentries, update_self])).1
  · rw [hfail.fresh]
    rcases hentries with hentries | hentries
    · rw [hentries]
      exact fun name shared hshared => (hbefore.fresh name shared hshared).trans_le h.fresh.1
    · exact (h.single_update hbefore (fun name hname => .inl ⟨hsame name hname, hname⟩)
        (by rw [hentries, update_self])).2
  · intro name hfinal
    have hname : name ≠ temp := fun he => htemp (he ▸ hfinal)
    rw [← hshows name hfinal]
    exact h.read_eq hbefore hfail.contents hname hfinal (hsame name hname)

/-- The entries behind the rename are no hard links. -/
theorem Renamed.single (h : Renamed before disk temp target inode content)
    (hbefore : before.Settled final) :
    (∀ name other shared, disk.entries name = some shared → disk.entries other = some shared →
      name = other) ∧ ∀ name shared, disk.entries name = some shared → shared < disk.fresh := by
  refine h.single_update hbefore (fun name hname => ?_) (by rw [h.entries, update_self])
  rw [h.entries, update_of_ne hname]
  by_cases he : name = temp
  · rw [he, update_self]
    exact .inr rfl
  · rw [update_of_ne he]
    exact .inl ⟨rfl, he⟩

/-- Behind the rename the content is there, on what keeps the entries and the synced contents. -/
theorem Renamed.shows (h : Renamed before disk temp target inode content)
    (hbefore : before.Settled final) (htemp : ¬ final temp) (hshows : before.Shows final files)
    {kept : Disk κ β} (hkept : ∀ inode, disk.synced inode = true →
      kept.contents inode = disk.contents inode) (hentries : kept.entries = disk.entries) :
    kept.Shows final (update files target (some content)) := by
  rw [h.entries] at hentries
  intro name hfinal
  -- the target reads the new content, every other name what it read before
  by_cases hname : name = target
  · rw [hname, update_self, Disk.read, hentries, update_self]
    exact congrArg some ((hkept inode h.synced).trans h.content)
  · have hne : name ≠ temp := fun he => htemp (he ▸ hfinal)
    rw [update_of_ne hname, ← hshows name hfinal]
    refine h.read_eq hbefore hkept hne hfinal ?_
    rw [hentries, update_of_ne hname, update_of_ne hne]

/-! ## Replacing a file -/

theorem Linked.shows (h : Linked before disk temp inode content) (hbefore : before.Settled final)
    (htemp : ¬ final temp) (hshows : before.Shows final files) : disk.Shows final files := by
  intro name hfinal
  have hname : name ≠ temp := fun he => htemp (he ▸ hfinal)
  rw [← hshows name hfinal]
  refine h.read_eq hbefore (fun _ _ => rfl) hname hfinal ?_
  rw [h.entries, update_of_ne hname]

/-- A temporary file is created, or one that an earlier run left is truncated. -/
theorem linked_create (dirOf : κ → δ) (temp : κ) (hbefore : before.Settled final) :
    ∃ inode, Linked before (before.apply dirOf (.create temp)) temp inode ([] : List β) := by
  -- a temporary file left behind is truncated, otherwise the next inode is taken
  cases hentry : before.entries temp with
  | some inode =>
    refine ⟨inode, ?_⟩
    simp only [Disk.apply, hentry]
    refine ⟨⟨rfl, fun other hother => ⟨update_of_ne hother .., update_of_ne hother ..⟩, ?_,
      le_rfl, hbefore.fresh temp inode hentry⟩, ?_, update_self .., .inl ⟨hbefore.pending, hentry⟩⟩
    · exact fun name hname hshared => hname (hbefore.single name temp inode hshared hentry)
    · exact (update_eq_self_iff.2 hentry.symm).symm
  | none =>
    refine ⟨before.fresh, ?_⟩
    simp only [Disk.apply, hentry]
    refine ⟨⟨rfl, fun other hother => ⟨update_of_ne hother .., update_of_ne hother ..⟩, ?_,
      Nat.le_succ _, Nat.lt_succ_self _⟩, rfl, update_self .., .inr ?_⟩
    · exact fun name _ hshared => Nat.lt_irrefl _ (hbefore.fresh name _ hshared)
    · rw [hbefore.pending, List.nil_append]

theorem Linked.append (h : Linked before disk temp inode content) (dirOf : κ → δ)
    (bytes : List β) :
    Linked before (disk.apply dirOf (.append temp bytes)) temp inode (content ++ bytes) := by
  have hentry : disk.entries temp = some inode := by rw [h.entries, update_self]
  simp only [Disk.apply, hentry]
  refine ⟨⟨h.stored, fun other hother => ?_, h.unshared, h.fresh⟩, h.entries, ?_, h.pending⟩
  · simp only [update_of_ne hother]
    exact h.others other hother
  · simp only [update_self]
    rw [h.content]

theorem Linked.syncFile (h : Linked before disk temp inode content) (dirOf : κ → δ) :
    Linked before (disk.apply dirOf (.syncFile temp)) temp inode content ∧
      (disk.apply dirOf (.syncFile temp)).synced inode = true := by
  have hentry : disk.entries temp = some inode := by rw [h.entries, update_self]
  simp only [Disk.apply, hentry]
  refine ⟨⟨⟨h.stored, fun other hother => ?_, h.unshared, h.fresh⟩, h.entries, h.content,
    h.pending⟩, update_self ..⟩
  simp only [update_of_ne hother]
  exact h.others other hother

theorem Linked.rename (h : Linked before disk temp inode content) (dirOf : κ → δ) (target : κ)
    (hsynced : disk.synced inode = true) :
    Renamed before (disk.apply dirOf (.rename temp target)) temp target inode content := by
  have hentry : disk.entries temp = some inode := by rw [h.entries, update_self]
  simp only [Disk.apply, hentry]
  refine ⟨⟨h.stored, h.others, h.unshared, h.fresh⟩, ?_, h.content, hsynced, ?_⟩
  · simp only [EntryChange.apply, h.entries, update_idem]
  · -- the rename is pending behind whatever was pending before
    rcases h.pending with ⟨hpending, -⟩ | hpending
    · exact .inl (by rw [hpending, List.nil_append])
    · exact .inr (by rw [hpending]; rfl)

theorem Renamed.syncDir (h : Renamed before disk temp target inode content)
    (hbefore : before.Settled final) (htemp : ¬ final temp) (hshows : before.Shows final files)
    (hdir : dirOf temp = dirOf target) :
    (disk.apply dirOf (.syncDir (dirOf target))).Settled final ∧
      (disk.apply dirOf (.syncDir (dirOf target))).Shows final
        (update files target (some content)) := by
  -- all that is pending is in the directory of the target
  have hnames : ∀ change ∈ disk.pending, dirOf change.name = dirOf target := by
    intro change hchange
    rcases h.pending with hpending | hpending
    · rw [hpending, List.mem_singleton] at hchange
      rw [hchange]
      rfl
    · rw [hpending, List.mem_cons, List.mem_singleton] at hchange
      rcases hchange with rfl | rfl
      · exact hdir
      · rfl
  -- behind the call the changes are stored in their order, with none lost
  have hstored : disk.pending.foldl EntryChange.apply disk.stored = disk.entries := by
    rw [h.stored, hbefore.stored, h.entries]
    rcases h.pending with hpending | hpending
    · rw [hpending]
      rfl
    · rw [hpending]
      simp only [List.foldl_cons, List.foldl_nil, EntryChange.apply, update_idem]
  obtain ⟨hsingle, hfresh⟩ := h.single hbefore
  refine ⟨⟨?_, ?_, fun name hfinal other hother => ?_, hsingle, hfresh⟩,
    h.shows hbefore htemp hshows (fun _ _ => rfl) rfl⟩
  · exact List.filter_eq_nil_iff.2 fun change hchange => by simp [hnames change hchange]
  · show (disk.pending.filter _).foldl EntryChange.apply disk.stored = disk.entries
    rw [List.filter_eq_self.2 fun change hchange => by simp [hnames change hchange], hstored]
  · show disk.synced other = true
    have hentry : disk.entries name = some other := hother
    rw [h.entries] at hentry
    by_cases hname : name = target
    · rw [hname, update_self] at hentry
      rw [← Option.some.inj hentry]
      exact h.synced
    · have hne : name ≠ temp := fun he => htemp (he ▸ hfinal)
      rw [update_of_ne hname, update_of_ne hne] at hentry
      have hold : other ≠ inode := fun he => h.unshared name hne (he ▸ hentry)
      rw [(h.others other hold).2]
      exact hbefore.synced name hfinal other hentry

/-! ## The replacement survives -/

variable {stage : (κ → Option (List β)) → Prop} {chunks : List (List β)}

theorem Disk.Survives.forall_prefix_cons {op : FileOp κ δ β} {ops : List (FileOp κ δ β)}
    (hstart : disk.Survives final stage) (hrest : ∀ done, done <+: ops →
      ((disk.apply dirOf op).run dirOf done).Survives final stage) :
    ∀ done, done <+: op :: ops → (disk.run dirOf done).Survives final stage := by
  intro done hdone
  rcases List.prefix_cons_iff.1 hdone with rfl | ⟨rest, rfl, hprefix⟩
  · exact hstart
  · exact hrest rest hprefix

theorem Disk.Settled.survives (h : disk.Settled final) (hshows : disk.Shows final files)
    (hstage : stage files) : disk.Survives final stage := by
  refine ⟨⟨files, hstage, hshows⟩, fun failed hfail => ?_⟩
  -- nothing is pending, so that the failure loses no directory entry
  obtain ⟨kept, hkept, hentries⟩ := hfail.entries
  rw [h.pending, List.sublist_nil] at hkept
  rw [hkept, List.foldl_nil, h.stored] at hentries
  refine ⟨⟨hfail.pending, hfail.stored, fun _ _ inode _ => hfail.synced inode, ?_, ?_⟩, files,
    hstage, fun name hfinal => ?_⟩
  · rw [hentries]
    exact h.single
  · rw [hentries, hfail.fresh]
    exact h.fresh
  · rw [← hshows name hfinal, Disk.read, Disk.read, hentries]
    cases hentry : disk.entries name with
    | none => rfl
    | some inode => exact congrArg some (hfail.contents inode (h.synced name hfinal inode hentry))

theorem Linked.survives (h : Linked before disk temp inode content) (hbefore : before.Settled final)
    (htemp : ¬ final temp) (hshows : before.Shows final files) (hstage : stage files) :
    disk.Survives final stage := by
  refine ⟨⟨files, hstage, h.shows hbefore htemp hshows⟩, fun failed hfail => ?_⟩
  obtain ⟨hsettled, hold⟩ := h.failed_before hbefore htemp hshows hfail
    (h.failed_entries hbefore hfail)
  exact ⟨hsettled, files, hstage, hold⟩

theorem Renamed.survives (h : Renamed before disk temp target inode content)
    (hbefore : before.Settled final) (htemp : ¬ final temp) (hshows : before.Shows final files)
    (hstage : stage files) (hnext : stage (update files target (some content))) :
    disk.Survives final stage := by
  refine ⟨⟨_, hnext, h.shows hbefore htemp hshows (fun _ _ => rfl) rfl⟩, fun failed hfail => ?_⟩
  -- after the failure the directory is the old one, holds the temporary name as well or
  -- names the file by its target
  rcases h.failed_entries hbefore hfail with hentries | hentries | hentries
  · obtain ⟨hsettled, hold⟩ := h.failed_before hbefore htemp hshows hfail (.inl hentries)
    exact ⟨hsettled, files, hstage, hold⟩
  · obtain ⟨hsettled, hold⟩ := h.failed_before hbefore htemp hshows hfail (.inr hentries)
    exact ⟨hsettled, files, hstage, hold⟩
  · rw [← h.entries] at hentries
    obtain ⟨hsingle, hfresh⟩ := h.single hbefore
    refine ⟨⟨hfail.pending, hfail.stored, fun _ _ inode _ => hfail.synced inode, ?_, ?_⟩, _, hnext,
      h.shows hbefore htemp hshows hfail.contents hentries⟩
    · rw [hentries]
      exact hsingle
    · rw [hentries, hfail.fresh]
      exact hfresh

/-- The system calls that replace a file. -/
def replaceOps (dirOf : κ → δ) (temp target : κ) (chunks : List (List β)) :
    List (FileOp κ δ β) :=
  .create temp :: (chunks.map (.append temp) ++
    [.syncFile temp, .rename temp target, .syncDir (dirOf target)])

/-- The rest of a replacement, once the temporary file is there. -/
theorem Linked.survives_rest (h : Linked before disk temp inode content)
    (hbefore : before.Settled final) (htemp : ¬ final temp) (hdir : dirOf temp = dirOf target)
    (hshows : before.Shows final files) (hstage : stage files)
    (hnext : stage (update files target (some (content ++ chunks.flatten)))) :
    (∀ done, done <+: chunks.map (.append temp) ++
        [.syncFile temp, .rename temp target, .syncDir (dirOf target)] →
      (disk.run dirOf done).Survives final stage) ∧
    (disk.run dirOf (chunks.map (.append temp) ++
      [.syncFile temp, .rename temp target, .syncDir (dirOf target)])).Settled final ∧
    (disk.run dirOf (chunks.map (.append temp) ++
      [.syncFile temp, .rename temp target, .syncDir (dirOf target)])).Shows final
        (update files target (some (content ++ chunks.flatten))) := by
  have hsurvives := h.survives hbefore htemp hshows hstage
  induction chunks generalizing disk content with
  | nil =>
    rw [List.flatten_nil, List.append_nil] at hnext ⊢
    -- the content is complete; three calls are left
    obtain ⟨hsync, hsynced⟩ := h.syncFile dirOf
    have hrename := hsync.rename dirOf target hsynced
    have hpublished := hrename.syncDir hbefore htemp hshows hdir
    refine ⟨?_, hpublished⟩
    refine hsurvives.forall_prefix_cons ?_
    refine (hsync.survives hbefore htemp hshows hstage).forall_prefix_cons ?_
    refine (hrename.survives hbefore htemp hshows hstage hnext).forall_prefix_cons ?_
    intro done hdone
    rw [List.prefix_nil.1 hdone]
    exact hpublished.1.survives hpublished.2 hnext
  | cons bytes chunks ih =>
    have happend := h.append dirOf bytes
    rw [List.flatten_cons, ← List.append_assoc] at hnext ⊢
    obtain ⟨hdone, hend⟩ := ih happend hnext (happend.survives hbefore htemp hshows hstage)
    exact ⟨hsurvives.forall_prefix_cons hdone, hend⟩

/-- **A replacement survives.** While a file is replaced, other processes see the files of before
or those of behind the replacement, and so they do if the power fails. -/
theorem survives_replace (hbefore : before.Settled final) (htemp : ¬ final temp)
    (hdir : dirOf temp = dirOf target) (hshows : before.Shows final files) (hstage : stage files)
    (hnext : stage (update files target (some chunks.flatten))) :
    (∀ done, done <+: replaceOps dirOf temp target chunks →
      (before.run dirOf done).Survives final stage) ∧
    (before.run dirOf (replaceOps dirOf temp target chunks)).Settled final ∧
    (before.run dirOf (replaceOps dirOf temp target chunks)).Shows final
      (update files target (some chunks.flatten)) := by
  -- behind the creation of the temporary file, the rest of the replacement
  obtain ⟨inode, hcreate⟩ := linked_create dirOf temp hbefore
  obtain ⟨hdone, hend⟩ := hcreate.survives_rest hbefore htemp hdir hshows hstage hnext
  exact ⟨(hbefore.survives hshows hstage).forall_prefix_cons hdone, hend⟩

/-! ## Several replacements -/

/-- The system calls that replace files, one after the other. -/
def replaceAllOps (dirOf : κ → δ) (temp : κ → κ) (writes : List (κ × List (List β))) :
    List (FileOp κ δ β) :=
  writes.flatMap fun write => replaceOps dirOf (temp write.1) write.1 write.2

/-- The files behind replacements. -/
def replaceFiles (files : κ → Option (List β)) (writes : List (κ × List (List β))) :
    κ → Option (List β) :=
  writes.foldl (fun files write => update files write.1 (some write.2.flatten)) files

/-- **Replacements survive.** Wherever a run of replacements is, other processes see the files
behind a prefix of them, and so they do if the power fails, which leaves a settled disk. -/
theorem survives_replaceAll (stage : (κ → Option (List β)) → Prop) (temp : κ → κ)
    {writes : List (κ × List (List β))} (hbefore : before.Settled final)
    (hshows : before.Shows final files)
    (htemp : ∀ write ∈ writes, ¬ final (temp write.1) ∧ dirOf (temp write.1) = dirOf write.1)
    (hstage : ∀ taken, taken <+: writes → stage (replaceFiles files taken)) :
    (∀ done, done <+: replaceAllOps dirOf temp writes →
      (before.run dirOf done).Survives final stage) ∧
    (before.run dirOf (replaceAllOps dirOf temp writes)).Settled final ∧
    (before.run dirOf (replaceAllOps dirOf temp writes)).Shows final
      (replaceFiles files writes) := by
  induction writes generalizing before files with
  | nil =>
    refine ⟨fun done hdone => ?_, hbefore, hshows⟩
    rw [List.prefix_nil.1 hdone]
    exact hbefore.survives hshows (hstage [] List.prefix_rfl)
  | cons write writes ih =>
    obtain ⟨⟨hfinal, hdir⟩, hrest⟩ := List.forall_mem_cons.1 htemp
    have hfirst : stage (update files write.1 (some write.2.flatten)) :=
      hstage [write] (List.cons_prefix_cons.2 ⟨rfl, List.nil_prefix⟩)
    obtain ⟨hsurvives, hsettled, hnext⟩ := survives_replace hbefore hfinal hdir hshows
      (hstage [] List.nil_prefix) hfirst
    obtain ⟨hsurvivesRest, hend⟩ := ih hsettled hnext hrest fun taken htaken =>
      hstage (write :: taken) (List.cons_prefix_cons.2 ⟨rfl, htaken⟩)
    have hrun : ∀ rest, (before.run dirOf (replaceOps dirOf (temp write.1) write.1 write.2)).run
        dirOf rest =
          before.run dirOf (replaceOps dirOf (temp write.1) write.1 write.2 ++ rest) :=
      fun rest => List.foldl_append.symm
    refine ⟨fun done hdone => ?_, hrun _ ▸ hend⟩
    -- the calls made so far end inside the first replacement or behind it
    rcases List.prefix_or_prefix_of_prefix hdone (List.prefix_append _ _) with
      hinside | ⟨rest, rfl⟩
    · exact hsurvives done hinside
    · rw [← hrun]
      exact hsurvivesRest rest ((List.prefix_append_right_inj _).1 hdone)

end Replace

end Disks

end HotIndex.Lib
