/-
File trees with symbolic links, and the paths that lead through them.

A location is the list of names from the root down.  A path is walked one segment at
a time from the root or from the working directory, and where it meets a symbolic
link, the link's target is put in front of what is left of it; the walk gives up after
so many links.  The location that a walk ends at is the path's canonical one: no
link stands on the way to it, so that walking to it again changes nothing
(`canonicalize_ofLocation`), and two paths are to one file if they have one canonical location.
-/
import Mathlib.Data.List.Induction
import Mathlib.Data.List.TakeDrop

namespace FileTree

abbrev Name := List UInt8

/-- The names from the root down. -/
abbrev Location := List Name

def dot : Name := [46]
def dotDot : Name := [46, 46]

/-- A name that an entry can have: no path means a directory nearby by it, or ends within it. -/
def Normal (name : Name) : Prop := (name ≠ [] ∧ name ≠ dot ∧ name ≠ dotDot) ∧ 0 ∉ name ∧ 47 ∉ name

instance (name : Name) : Decidable (Normal name) :=
  inferInstanceAs (Decidable ((_ ∧ _ ∧ _) ∧ ¬ _ ∧ ¬ _))

/-! ### Paths -/

/-- A path as it is written: whether it begins with a slash, and what stands between the slashes. -/
structure Path where
  absolute : Bool
  segments : List Name
  deriving DecidableEq, Repr

namespace Path

/-- The path to a location. -/
def ofLocation (c : Location) : Path := { absolute := true, segments := c }

/-- An absolute path takes the place of the one that it is joined to. -/
def join (path other : Path) : Path :=
  if other.absolute then other else { path with segments := path.segments ++ other.segments }

/-- Where a walk along the path begins, as seen from `cur`; the empty path leads nowhere. -/
def start (path : Path) (cur : Location) : Option Location :=
  if path.absolute then some []
  else if path.segments.all List.isEmpty then none
  else some cur

/-- The last segment, if it is a name; empty ones and dots are not looked at. -/
def fileName (path : Path) : Option Name :=
  ((path.segments.filter fun s => s ≠ [] ∧ s ≠ dot).getLast?).filter (· ≠ dotDot)

end Path

/-- A name's stem, and its extension: what stands behind its last dot, unless the name begins with it. -/
def splitExtension (name : Name) : Name × Option Name :=
  match name.reverse.span (· != 46) with
  | (_, []) => (name, none)
  | (_, [_]) => (name, none)
  | (ext, _ :: stem) => if name = dotDot then (name, none) else (stem.reverse, some ext.reverse)

theorem splitExtension_eq (name : Name) :
    splitExtension name = (name, none) ∨
      ∃ stem ext, splitExtension name = (stem, some ext) ∧ name = stem ++ 46 :: ext := by
  unfold splitExtension
  have happend := List.takeWhile_append_dropWhile (p := (· != 46)) (l := name.reverse)
  have hhead := List.head?_dropWhile_not (· != 46) name.reverse
  rw [List.span_eq_takeWhile_dropWhile]
  split
  · exact .inl rfl
  · exact .inl rfl
  · rename_i ext dot' stem _ hspan
    obtain ⟨rfl, hdrop⟩ := Prod.mk.inj hspan
    rw [hdrop] at happend hhead
    obtain rfl : dot' = 46 := by simpa using hhead
    split
    · exact .inl rfl
    · refine .inr ⟨_, _, rfl, ?_⟩
      have hname := congrArg List.reverse happend
      simpa using hname.symm

/-- The location with the extension of its last name replaced. -/
def withExtension (c : Location) (ext : Name) : Location :=
  match c.getLast? with
  | some name => c.dropLast ++ [if ext = [] then (splitExtension name).1 else (splitExtension name).1 ++ 46 :: ext]
  | none => c

/-! ### Trees -/

/-- What stands at a location; a regular file may be one that cannot be read. -/
inductive Entry where
  | file (contents : Option (List UInt8))
  | dir
  | symlink (target : Path)
  | other
  deriving DecidableEq, Repr

/-- A tree of files, with the directory that relative paths begin at and how many links a walk may meet. -/
structure Tree where
  entry : Location → Option Entry
  cwd : Location
  maxLinks : Nat
  root : entry [] = some .dir
  parent : ∀ c name, entry (c ++ [name]) ≠ none → entry c = some .dir
  normal : ∀ c name, entry (c ++ [name]) ≠ none → Normal name
  cwd_dir : entry cwd = some .dir

namespace Tree

/-- The entry that a table has for a location; the root is a directory. -/
def entryIn (table : List (Location × Entry)) (c : Location) : Option Entry :=
  if c = [] then some .dir else table.lookup c

/-- Every entry of the table has a name of its own, and stands in a directory. -/
def Tabled (table : List (Location × Entry)) : Prop :=
  ∀ x ∈ table, entryIn table x.1.dropLast = some .dir ∧ ∀ name ∈ x.1.getLast?, Normal name

instance (table : List (Location × Entry)) : Decidable (Tabled table) :=
  inferInstanceAs (Decidable (∀ x ∈ table, _ ∧ ∀ name ∈ x.1.getLast?, _))

theorem entryIn_concat {table : List (Location × Entry)} {c : Location} {name : Name}
    (h : entryIn table (c ++ [name]) ≠ none) : ∃ e, (c ++ [name], e) ∈ table := by
  obtain ⟨e, he⟩ := Option.ne_none_iff_exists'.mp h
  rw [entryIn, if_neg (by simp)] at he
  obtain ⟨above, below, rfl, _⟩ := List.lookup_eq_some_iff.mp he
  exact ⟨e, by simp⟩

/-- The tree of a table's entries, as seen from its root. -/
def ofTable (table : List (Location × Entry)) (maxLinks : Nat) (h : Tabled table) : Tree where
  entry := entryIn table
  cwd := []
  maxLinks := maxLinks
  root := by simp [entryIn]
  parent := by
    intro c name hne
    obtain ⟨e, he⟩ := entryIn_concat hne
    simpa using (h _ he).1
  normal := by
    intro c name hne
    obtain ⟨e, he⟩ := entryIn_concat hne
    simpa using (h _ he).2
  cwd_dir := by simp [entryIn]

variable (t : Tree)

/-- The walk along the segments that are left, with what is done at a link. -/
def walkOn (link : Location → List Name → Option Location) : Location → List Name → Option Location
  | cur, [] => some cur
  | cur, s :: rest =>
      if t.entry cur ≠ some .dir then none
      else if s = [] ∨ s = dot then walkOn link cur rest
      else if s = dotDot then walkOn link cur.dropLast rest
      else match t.entry (cur ++ [s]) with
        | none => none
        | some (.symlink target) => (target.start cur).bind fun c => link c (target.segments ++ rest)
        | some _ => walkOn link (cur ++ [s]) rest

/-- The walk, over so many links at most. -/
def walk : Nat → Location → List Name → Option Location
  | 0 => t.walkOn fun _ _ => none
  | n + 1 => t.walkOn (walk n)

/-- `realpath`: where the path leads, links followed. -/
def canonicalize (path : Path) : Option Location :=
  (path.start t.cwd).bind fun cur => t.walk t.maxLinks cur path.segments

/-- What is there, links followed. -/
def metadata (path : Path) : Option Entry := (t.canonicalize path).bind t.entry

def isFile (path : Path) : Bool :=
  match t.metadata path with
  | some (.file _) => true
  | _ => false

/-- A file's contents, links followed. -/
def read (path : Path) : Option (List UInt8) :=
  match t.metadata path with
  | some (.file contents) => contents
  | _ => none

/-! ### What a walk comes to -/

/-- Something stands there, and it is no link. -/
def Real (c : Location) : Prop := ∃ e, t.entry c = some e ∧ ∀ target, e ≠ .symlink target

variable {t}

theorem Real.of_dir {c : Location} (h : t.entry c = some .dir) : t.Real c := ⟨.dir, h, by simp⟩

theorem real_dropLast {c : Location} (h : t.entry c = some .dir) : t.Real c.dropLast := by
  induction c using List.reverseRecOn with
  | nil => exact .of_dir t.root
  | append_singleton up name _ =>
    rw [List.dropLast_concat]
    exact .of_dir (t.parent up name (by simp [h]))

theorem real_start {path : Path} {cur c : Location} (hcur : t.Real cur) (h : path.start cur = some c) :
    t.Real c := by
  unfold Path.start at h
  split at h
  · obtain rfl : [] = c := by simpa using h
    exact .of_dir t.root
  · split at h
    · simp at h
    · obtain rfl : cur = c := by simpa using h
      exact hcur

/-- One leg of a walk ends where something real stands, if the legs behind its links do. -/
theorem walkOn_real {link : Location → List Name → Option Location}
    (hlink : ∀ cur segs c, t.Real cur → link cur segs = some c → t.Real c) (segs : List Name) :
    ∀ cur c, t.Real cur → t.walkOn link cur segs = some c → t.Real c := by
  induction segs with
  | nil =>
    intro cur c hcur h
    obtain rfl : cur = c := by simpa [walkOn] using h
    exact hcur
  | cons s rest ih =>
    intro cur c hcur h
    unfold walkOn at h
    split at h
    · simp at h
    · rename_i hdir
      have hdir : t.entry cur = some .dir := by simpa using hdir
      split at h
      · exact ih cur c hcur h
      · split at h
        · exact ih _ c (real_dropLast hdir) h
        · split at h
          · simp at h
          · rename_i target he
            obtain ⟨c', hstart, hgo⟩ := Option.bind_eq_some_iff.mp h
            exact hlink _ _ c (real_start hcur hstart) hgo
          · rename_i e hnot he
            exact ih _ c ⟨e, he, fun target heq => hnot target heq⟩ h

theorem walk_real (n : Nat) : ∀ cur segs c, t.Real cur → t.walk n cur segs = some c → t.Real c := by
  induction n with
  | zero =>
    intro cur segs c hcur h
    exact walkOn_real (by simp) segs cur c hcur h
  | succ n ih =>
    intro cur segs c hcur h
    exact walkOn_real ih segs cur c hcur h

theorem canonicalize_real {path : Path} {c : Location} (h : t.canonicalize path = some c) : t.Real c := by
  obtain ⟨cur, hstart, hwalk⟩ := Option.bind_eq_some_iff.mp h
  exact walk_real _ _ _ c (real_start (.of_dir t.cwd_dir) hstart) hwalk

/-! ### Walking to a location -/

/-- Every location above one where something stands is a directory. -/
theorem dir_above {c : Location} {name : Name} {below : List Name}
    (h : t.entry (c ++ name :: below) ≠ none) : t.entry c = some .dir := by
  induction below using List.reverseRecOn with
  | nil => exact t.parent c name h
  | append_singleton below last ih =>
    have hup : t.entry (c ++ name :: below) = some .dir := t.parent _ last (by simpa using h)
    exact ih (by simp [hup])

/-- A walk gets down to where something real stands, and goes on from there. -/
theorem walkOn_down (link : Location → List Name → Option Location) (segs rest : List Name) :
    ∀ cur, t.Real (cur ++ segs) → t.walkOn link cur (segs ++ rest) = t.walkOn link (cur ++ segs) rest := by
  induction segs with
  | nil => simp
  | cons s more ih =>
    intro cur hreal
    obtain ⟨e, he, hlink⟩ := hreal
    have hdir : t.entry cur = some .dir := dir_above (he ▸ Option.some_ne_none e)
    have hcons : cur ++ s :: more = (cur ++ [s]) ++ more := by simp
    have hthere : ∃ e', t.entry (cur ++ [s]) = some e' ∧ ∀ target, e' ≠ .symlink target := by
      cases more with
      | nil => exact ⟨e, he, hlink⟩
      | cons next more =>
        rw [hcons] at he
        exact ⟨.dir, dir_above (he ▸ Option.some_ne_none e), by simp⟩
    obtain ⟨e', he', hlink'⟩ := hthere
    obtain ⟨⟨hne, hdot, hdots⟩, _⟩ := t.normal cur s (by simp [he'])
    have hmore := ih (cur ++ [s]) (hcons ▸ ⟨e, he, hlink⟩)
    rw [List.cons_append, hcons, ← hmore, walkOn]
    rw [if_neg (by simp [hdir]), if_neg (by simp [hne, hdot]), if_neg hdots, he']
    cases e' with
    | symlink target => exact absurd rfl (hlink' target)
    | file contents => rfl
    | dir => rfl
    | other => rfl

theorem walk_down (n : Nat) {c : Location} (rest : List Name) (h : t.Real c) :
    t.walk n [] (c ++ rest) = t.walk n c rest := by
  cases n with
  | zero => exact walkOn_down _ c rest [] h
  | succ n => exact walkOn_down _ c rest [] h

theorem walk_nil (n : Nat) (c : Location) : t.walk n c [] = some c := by cases n <;> rfl

/-- The path to where something real stands leads there. -/
theorem canonicalize_ofLocation {c : Location} (h : t.Real c) : t.canonicalize (.ofLocation c) = some c := by
  have hdown := walk_down t.maxLinks [] h
  rw [List.append_nil, walk_nil] at hdown
  simpa [canonicalize, Path.ofLocation, Path.start] using hdown

/-- A walk by one more name ends there, unless a link stands there. -/
theorem walk_one {n : Nat} {c e : Location} {name : Name} (hname : name ≠ [] ∧ name ≠ dot ∧ name ≠ dotDot)
    (hlink : ∀ target, t.entry (c ++ [name]) ≠ some (.symlink target)) (h : t.walk n c [name] = some e) :
    e = c ++ [name] := by
  obtain ⟨link, hleg⟩ : ∃ link, t.walk n c [name] = t.walkOn link c [name] := by
    cases n with
    | zero => exact ⟨_, rfl⟩
    | succ n => exact ⟨_, rfl⟩
  rw [hleg, walkOn] at h
  split at h
  · simp at h
  · rw [if_neg (by simp [hname]), if_neg hname.2.2] at h
    split at h
    · simp at h
    · rename_i target he
      exact absurd he (hlink target)
    · simpa [walkOn] using h.symm

/-- The path by one more name than a directory's location leads there, unless a link stands there. -/
theorem canonicalize_concat {c e : Location} {name : Name} (hname : name ≠ [] ∧ name ≠ dot ∧ name ≠ dotDot)
    (hdir : t.entry c = some .dir) (hlink : ∀ target, t.entry (c ++ [name]) ≠ some (.symlink target))
    (h : t.canonicalize (.ofLocation (c ++ [name])) = some e) : e = c ++ [name] := by
  have hwalk : t.walk t.maxLinks [] (c ++ [name]) = some e := by
    simpa [canonicalize, Path.ofLocation, Path.start] using h
  rw [walk_down _ _ (.of_dir hdir)] at hwalk
  exact walk_one hname hlink hwalk

/-! ### Walking on from a directory -/

/-- A leg that got to `d` with some of its links left goes on from there. -/
theorem walkOn_append {link : Location → List Name → Option Location} {d : Location} {more : List Name}
    (hlink : ∀ cur segs, link cur segs = some d → ∃ m, link cur (segs ++ more) = t.walk m d more)
    (hself : ∃ m, t.walkOn link d more = t.walk m d more) (segs : List Name) :
    ∀ cur, t.walkOn link cur segs = some d → ∃ m, t.walkOn link cur (segs ++ more) = t.walk m d more := by
  induction segs with
  | nil =>
    intro cur h
    obtain rfl : cur = d := by simpa [walkOn] using h
    exact hself
  | cons s rest ih =>
    intro cur h
    rw [List.cons_append]
    unfold walkOn at h ⊢
    split at h
    · simp at h
    · rename_i hdir
      rw [if_neg hdir]
      split at h
      · rename_i hskip
        rw [if_pos hskip]
        exact ih cur h
      · rename_i hskip
        rw [if_neg hskip]
        split at h
        · rename_i hup
          rw [if_pos hup]
          exact ih _ h
        · rename_i hup
          rw [if_neg hup]
          split at h
          · simp at h
          · rename_i target he
            obtain ⟨c, hstart, hgo⟩ := Option.bind_eq_some_iff.mp h
            obtain ⟨m, hm⟩ := hlink _ _ hgo
            refine ⟨m, ?_⟩
            simp only [hstart, Option.bind_some, ← List.append_assoc, hm]
          · exact ih _ h

theorem walk_append (n : Nat) {d : Location} (more : List Name) : ∀ cur segs,
    t.walk n cur segs = some d → ∃ m, t.walk n cur (segs ++ more) = t.walk m d more := by
  induction n with
  | zero =>
    intro cur segs h
    exact walkOn_append (by simp) ⟨0, rfl⟩ segs cur h
  | succ n ih =>
    intro cur segs h
    exact walkOn_append ih ⟨n + 1, rfl⟩ segs cur h

/-- The path of a directory with more segments behind it is walked on from where the directory's path leads. -/
theorem canonicalize_append {path : Path} {d : Location} (h : t.canonicalize path = some d) (more : List Name) :
    ∃ m, t.canonicalize { path with segments := path.segments ++ more } = t.walk m d more := by
  obtain ⟨cur, hstart, hwalk⟩ := Option.bind_eq_some_iff.mp h
  obtain ⟨m, hm⟩ := walk_append t.maxLinks more cur path.segments hwalk
  refine ⟨m, ?_⟩
  have hstart' : Path.start { path with segments := path.segments ++ more } t.cwd = some cur := by
    unfold Path.start at hstart ⊢
    split at hstart
    · rename_i habsolute
      rw [if_pos habsolute, hstart]
    · rename_i habsolute
      split at hstart
      · simp at hstart
      · rename_i hsome
        have hsome' : ¬ (path.segments ++ more).all List.isEmpty = true := by
          rw [List.all_append, Bool.and_eq_true]
          exact fun hall => hsome hall.1
        rw [if_neg habsolute, if_neg hsome', hstart]
  rw [canonicalize, hstart', Option.bind_some, hm]

/-- A walk down to where something real stands gets there. -/
theorem walk_to (n : Nat) {d : Location} {more : List Name} (h : t.Real (d ++ more)) :
    t.walk n d more = some (d ++ more) := by
  have hdown : ∀ link, t.walkOn link d (more ++ []) = some (d ++ more) :=
    fun link => walkOn_down link more [] d h
  rw [List.append_nil] at hdown
  cases n with
  | zero => exact hdown _
  | succ n => exact hdown _

/-- Where no links stand, a walk gets to the location that it spells. -/
theorem walk_unlinked (n : Nat) (more : List Name) : ∀ d e,
    (∀ below target, t.entry (d ++ below) ≠ some (.symlink target)) →
    (∀ name ∈ more, name ≠ [] ∧ name ≠ dot ∧ name ≠ dotDot) → t.walk n d more = some e → e = d ++ more := by
  have hleg : ∃ link, t.walk n = t.walkOn link := by
    cases n with
    | zero => exact ⟨_, rfl⟩
    | succ n => exact ⟨_, rfl⟩
  obtain ⟨link, hleg⟩ := hleg
  rw [hleg]
  induction more with
  | nil =>
    intro d e _ _ h
    simpa [walkOn] using h.symm
  | cons name more ih =>
    intro d e hlinks hnames h
    obtain ⟨hname, hmore⟩ := List.forall_mem_cons.mp hnames
    unfold walkOn at h
    split at h
    · simp at h
    · rw [if_neg (by simp [hname]), if_neg hname.2.2] at h
      split at h
      · simp at h
      · rename_i target he
        exact absurd he (hlinks [name] target)
      · have hbelow : ∀ below target, t.entry ((d ++ [name]) ++ below) ≠ some (.symlink target) := by
          intro below target
          rw [List.append_assoc]
          exact hlinks _ target
        rw [ih (d ++ [name]) e hbelow hmore h]
        simp

/-! ### Files -/

theorem isFile_iff {path : Path} :
    t.isFile path = true ↔ ∃ c contents, t.canonicalize path = some c ∧ t.entry c = some (.file contents) := by
  unfold isFile metadata
  cases t.canonicalize path with
  | none => simp
  | some c =>
    cases he : t.entry c with
    | none => simp [he]
    | some e => cases e <;> simp [he]

theorem isFile_ofLocation {c : Location} (h : t.Real c) :
    t.isFile (.ofLocation c) = true ↔ ∃ contents, t.entry c = some (.file contents) := by
  simp [isFile_iff, canonicalize_ofLocation h]

theorem read_iff {path : Path} {contents : List UInt8} :
    t.read path = some contents ↔
      ∃ c, t.canonicalize path = some c ∧ t.entry c = some (.file (some contents)) := by
  unfold read metadata
  cases t.canonicalize path with
  | none => simp
  | some c =>
    cases he : t.entry c with
    | none => simp [he]
    | some e => cases e <;> simp [he]

theorem isFile_of_read {path : Path} {contents : List UInt8} (h : t.read path = some contents) :
    t.isFile path = true := by
  obtain ⟨c, hc, he⟩ := read_iff.mp h
  exact isFile_iff.mpr ⟨c, some contents, hc, he⟩

end Tree

end FileTree
