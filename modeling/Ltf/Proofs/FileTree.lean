import Ltf.FileTree

/-! `create_directory` against the segments of its path, and `file_find_upwards` against the
places above the current directory. -/

namespace Ltf.Proofs.FileTree
open CString DirTree Ltf.FileTree

variable {permits : Permits}

/-- What a directory with all that is above it takes: each segment is entered, and made if it is missing. -/
def makePath (permits : Permits) : List (List UInt8) → TreePlace → DiskTree Content → Bool × DiskTree Content
  | [], _, tree => (true, tree)
  | segment :: segments, place, tree =>
    match enter tree place segment with
    | none => (false, tree)
    | some next =>
      let (answer, tree) := mkdirAt permits next tree
      if answer = .failed then (false, tree) else makePath permits segments next tree

/-- Only directories come to a tree. -/
structure Grown (tree after : DiskTree Content) : Prop where
  kept : Extends tree after
  fresh : ∀ place node, after.get place = some node → tree.get place = some node ∨ node = .directory

namespace Grown
variable {first second third : DiskTree Content}

theorem refl (tree : DiskTree Content) : Grown tree tree := ⟨.refl tree, fun _ _ there => .inl there⟩

theorem trans (one : Grown first second) (two : Grown second third) : Grown first third := by
  refine ⟨one.kept.trans two.kept, ?_⟩
  intro place node there
  obtain before | directory := two.fresh place node there
  · exact one.fresh place node before
  · exact .inr directory

end Grown

section Make
variable {place : TreePlace} {tree after : DiskTree Content} {segment : List UInt8} {segments more : List (List UInt8)} {host : Host}

/-- What is left of the answers of `mkdir` at a place that is in a directory. -/
theorem mkdirAt_cases (permits : Permits) (inside : tree.get place.dropLast = some .directory) :
    (tree.get place).isSome ∧ mkdirAt permits place tree = (.taken, tree) ∨
    tree.get place = none ∧ permits place = false ∧ mkdirAt permits place tree = (.failed, tree) ∨
    ∃ after, tree.get place = none ∧ permits place = true ∧ tree.add place .directory = some after ∧
      mkdirAt permits place tree = (.made, after) := by
  unfold mkdirAt
  cases there : tree.get place with
  | some node => simp
  | none =>
    cases may : permits place with
    | false => simp
    | true =>
      obtain ⟨after, added⟩ := @DiskTree.add_isSome _ tree place .directory inside (by simp [there])
      simp [added]

theorem mkdirAt_grown (inside : tree.get place.dropLast = some .directory) :
    Grown tree (mkdirAt permits place tree).2 := by
  obtain ⟨_, same⟩ | ⟨_, _, same⟩ | ⟨after, free, _, added, same⟩ := mkdirAt_cases permits inside
  · rw [same]
    exact .refl tree
  · rw [same]
    exact .refl tree
  · rw [same]
    refine ⟨.add added free, ?_⟩
    intro other node there
    rw [DiskTree.get_add added] at there
    split at there
    next =>
      cases there
      exact .inr rfl
    next => exact .inl there

theorem mkdirAt_there (inside : tree.get place.dropLast = some .directory)
    (made : (mkdirAt permits place tree).1 ≠ .failed) : ((mkdirAt permits place tree).2.get place).isSome := by
  obtain ⟨there, same⟩ | ⟨_, _, same⟩ | ⟨after, _, _, added, same⟩ := mkdirAt_cases permits inside
  · rwa [same]
  · rw [same] at made
    exact absurd rfl made
  · rw [same, DiskTree.get_add added, if_pos rfl]
    rfl

theorem makePath_cons (entered : enter tree place segment = some next) :
    makePath permits (segment :: segments) place tree =
      if (mkdirAt permits next tree).1 = .failed then (false, (mkdirAt permits next tree).2)
      else makePath permits segments next (mkdirAt permits next tree).2 := by
  rw [makePath, entered]

theorem makePath_grown (segments : List (List UInt8)) (place : TreePlace) (tree : DiskTree Content) :
    Grown tree (makePath permits segments place tree).2 := by
  induction segments generalizing place tree with
  | nil => exact .refl tree
  | cons segment segments ih =>
    cases entered : enter tree place segment with
    | none =>
      rw [makePath, entered]
      exact .refl tree
    | some next =>
      have grown := @mkdirAt_grown permits _ _ (enter_above entered)
      rw [makePath_cons entered]
      split
      · exact grown
      · exact grown.trans (ih next _)

/-- A path that was made leads to something. -/
theorem makePath_there (there : (tree.get place).isSome) (made : (makePath permits segments place tree).1) :
    ∃ final, locate (makePath permits segments place tree).2 place segments = some final ∧
      ((makePath permits segments place tree).2.get final).isSome := by
  induction segments generalizing place tree with
  | nil => exact ⟨place, rfl, there⟩
  | cons segment segments ih =>
    cases entered : enter tree place segment with
    | none =>
      rw [makePath, entered] at made
      cases made
    | some next =>
      rw [makePath_cons entered] at made ⊢
      split at made
      next => cases made
      next worked =>
        rw [if_neg worked]
        have inside := enter_above entered
        obtain ⟨final, found, last⟩ := ih (mkdirAt_there inside worked) made
        have grown := @makePath_grown permits segments next (mkdirAt permits next tree).2
        refine ⟨final, ?_, last⟩
        rw [locate, List.foldlM_cons, enter_extends ((mkdirAt_grown inside).trans grown).kept entered]
        exact found

end Make

section Components
variable {host : Host} {path : CStr} {place start : TreePlace} {tree later : DiskTree Content}

theorem grown_tree (kept : Extends host.tree tree) : (host.grown tree).tree = tree ∧ (host.grown tree).cwd = host.cwd := by
  have inside : tree.isDirectory host.cwd :=
    DiskTree.isDirectory_iff.mpr (kept _ _ (DiskTree.isDirectory_iff.mp host.inside))
  rw [Host.grown, dif_pos inside]
  exact ⟨rfl, rfl⟩

theorem grown_same (host : Host) : host.grown host.tree = host :=
  Host.ext (grown_tree (.refl _)).1 (grown_tree (.refl _)).2

theorem grown_twice (kept : Extends host.tree tree) (more : Extends tree later) :
    (host.grown tree).grown later = host.grown later := by
  obtain ⟨first, here⟩ := grown_tree kept
  rw [← first] at more
  obtain ⟨second, still⟩ := grown_tree more
  rw [first] at more
  obtain ⟨whole, there⟩ := grown_tree (kept.trans more)
  exact Host.ext (second.trans whole.symm) (still.trans (here.trans there.symm))

theorem find_eq (nonempty : path.bytes ≠ []) : host.find path = locate host.tree (host.start path) (strtok path.bytes 47) := by
  rw [Host.find, if_neg nonempty]

theorem find_iff : host.find path = some place ↔
    path.bytes ≠ [] ∧ locate host.tree (host.start path) (strtok path.bytes 47) = some place := by
  rw [Host.find]
  split
  next empty => exact iff_of_false nofun fun found => found.1 empty
  next nonempty => exact (and_iff_right nonempty).symm

theorem mkdir_none (missing : host.find path = none) : mkdir permits path host = (.failed, host) := by
  rw [mkdir, missing]

theorem mkdir_some (found : host.find path = some place) :
    mkdir permits path host = ((mkdirAt permits place host.tree).1, host.grown (mkdirAt permits place host.tree).2) := by
  rw [mkdir, found]

theorem start_front {front rest : List UInt8} (split : path.bytes = front ++ rest) (nonempty : front ≠ []) :
    (CStr.ofBytes front).bytes = front ∧ host.start (.ofBytes front) = host.start path := by
  have clean : (0 : UInt8) ∉ front := fun inside => path.terminated (by simp [split, inside])
  refine ⟨CStr.ofBytes_eq clean, ?_⟩
  obtain ⟨byte, bytes, rfl⟩ := List.exists_cons_of_ne_nil nonempty
  simp only [Host.start, CStr.ofBytes_eq clean, split, List.cons_append, List.head?_cons]

/-- The last `mkdir`, if the loop came to its end. -/
def lastComponent (permits : Permits) (path : CStr) (s : Bool × Host) : Bool × Host :=
  if !s.1 then (false, s.2) else ((mkdir permits path s.2).1 ≠ .failed, (mkdir permits path s.2).2)

theorem strtok_end (front : List UInt8) : strtok (front ++ [47]) 47 = strtok front 47 := by
  rw [Paths.strtok_append]
  simp [strtok]

theorem strtok_open {done : List UInt8} (ends : done = [] ∨ ∃ front, done = front ++ [47]) (rest : List UInt8) :
    strtok (done ++ rest) 47 = strtok done 47 ++ strtok rest 47 := by
  obtain rfl | ⟨front, rfl⟩ := ends
  · rfl
  · rw [List.append_assoc, List.singleton_append, Paths.strtok_append, strtok_end]

/-- The place of a component, once the ones in front of it have been made. -/
theorem find_next {done current rest : List UInt8} (split : path.bytes = done ++ current ++ rest)
    (ends : done = [] ∨ ∃ front, done = front ++ [47]) (whole : (47 : UInt8) ∉ current) (nonempty : current ≠ [])
    (found : locate host.tree (host.start path) (strtok done 47) = some place) :
    host.find (.ofBytes (done ++ current)) = enter host.tree place current := by
  have some_there : done ++ current ≠ [] := by simp [nonempty]
  obtain ⟨bytes, starts⟩ := @start_front host path _ _ split some_there
  rw [find_eq (by rwa [bytes]), bytes, starts, strtok_open ends, Paths.strtok_segment nonempty whole, locate_snoc found]

/-- In front of `p` there are components that were made, and a part of the next one. -/
theorem makeComponents_eq (permits : Permits) {path : CStr} {done current rest : List UInt8} {host : Host} {place : TreePlace}
    (split : path.bytes = done ++ current ++ rest) (nonempty : path.bytes ≠ [])
    (ends : done = [] ∨ ∃ front, done = front ++ [47]) (whole : (47 : UInt8) ∉ current)
    (found : locate host.tree (host.start path) (strtok done 47) = some place) (there : (host.tree.get place).isSome) :
    lastComponent permits path (makeComponents permits (done ++ current) (current = []) rest host) =
      ((makePath permits (strtok (current ++ rest) 47) place host.tree).1,
        host.grown (makePath permits (strtok (current ++ rest) 47) place host.tree).2) := by
  induction rest generalizing done current host place with
  | nil =>
    rw [List.append_nil] at split ⊢
    simp only [makeComponents, lastComponent, Bool.not_true, Bool.false_eq_true, if_false]
    by_cases empty : current = []
    · subst empty
      rw [List.append_nil] at split
      have taken : host.find path = some place := by rw [find_eq nonempty, split, found]
      simp [mkdir_some taken, mkdirAt, there, strtok, makePath]
    · have next := @find_next host path place done current [] (by rw [split, List.append_nil]) ends whole empty found
      rw [← split, CStr.ofBytes_bytes] at next
      rw [Paths.strtok_segment empty whole]
      cases entered : enter host.tree place current with
      | none => simp [mkdir_none (next.trans entered), makePath, entered, grown_same]
      | some place =>
        simp only [mkdir_some (next.trans entered), makePath_cons entered]
        split
        next failed => simp [failed]
        next worked => simp [worked, makePath]
  | cons byte rest ih =>
    by_cases slash : byte = 47
    · subst slash
      by_cases empty : current = []
      · subst empty
        have further := @ih (done ++ [47]) [] host place (by rw [split]; simp) (.inr ⟨done, rfl⟩) (by simp)
          (by rwa [strtok_end]) there
        simpa [makeComponents, Paths.strtok_slash] using further
      · have next := find_next split ends whole empty found
        have busy : decide (current = []) = false := by simpa using empty
        rw [Paths.strtok_cons empty whole, makeComponents, busy, if_pos (by simp)]
        cases entered : enter host.tree place current with
        | none => simp [mkdir_none (next.trans entered), makePath, entered, grown_same, lastComponent]
        | some place =>
          rw [mkdir_some (next.trans entered), makePath_cons entered]
          have inside := enter_above entered
          have grown := @mkdirAt_grown permits _ _ inside
          obtain ⟨tree, cwd⟩ := grown_tree grown.kept
          simp only
          split
          next failed => simp [lastComponent]
          next worked =>
            have starts : (host.grown (mkdirAt permits place host.tree).2).start path = host.start path := by
              rw [Host.start, Host.start, cwd]
            have reached : locate (mkdirAt permits place host.tree).2 (host.start path)
                (strtok (done ++ current ++ [47]) 47) = some place := by
              rw [strtok_end, strtok_open ends, Paths.strtok_segment empty whole]
              exact locate_extends grown.kept ((locate_snoc found).trans entered)
            have further := @ih (done ++ current ++ [47]) [] (host.grown (mkdirAt permits place host.tree).2) place
              (by rw [split]; simp) (.inr ⟨done ++ current, rfl⟩) (by simp) (by rw [tree, starts, reached])
              (by rw [tree]; exact mkdirAt_there inside worked)
            rw [tree, grown_twice grown.kept (makePath_grown _ _ _).kept] at further
            simpa using further
    · have further := @ih done (current ++ [byte]) host place (by rw [split]; simp) ends
        (by simp [whole, Ne.symm slash]) found there
      simpa [makeComponents, slash] using further

theorem start_there (host : Host) (path : CStr) : (host.tree.get (host.start path)).isSome := by
  unfold Host.start
  split
  · rfl
  · rw [DiskTree.isDirectory_iff.mp host.inside]
    rfl

/-- The loop over the characters is one over the segments. -/
theorem createDirectory_eq (nonempty : path.bytes ≠ []) (short : path.bytes.length < pathMax) :
    createDirectory permits path host = ((makePath permits (strtok path.bytes 47) (host.start path) host.tree).1,
      host.grown (makePath permits (strtok path.bytes 47) (host.start path) host.tree).2) := by
  have whole := @makeComponents_eq permits path [] [] path.bytes host (host.start path) rfl nonempty (.inl rfl) (by simp)
    (by simp [strtok]) (start_there host path)
  rw [createDirectory, if_neg nonempty, if_neg (by omega)]
  exact whole

theorem createDirectory_grown (permits : Permits) (path : CStr) (host : Host) :
    Grown host.tree (createDirectory permits path host).2.tree ∧ (createDirectory permits path host).2.cwd = host.cwd := by
  by_cases refused : path.bytes = [] ∨ pathMax ≤ path.bytes.length
  · have same : createDirectory permits path host = (false, host) := by
      obtain empty | long := refused
      · rw [createDirectory, if_pos empty]
      · by_cases empty : path.bytes = []
        · rw [createDirectory, if_pos empty]
        · rw [createDirectory, if_neg empty, if_pos long]
    rw [same]
    exact ⟨.refl _, rfl⟩
  · rw [not_or, not_le] at refused
    rw [createDirectory_eq refused.1 refused.2]
    have grown := @makePath_grown permits (strtok path.bytes 47) (host.start path) host.tree
    obtain ⟨tree, cwd⟩ := grown_tree grown.kept
    exact ⟨by rwa [tree], cwd⟩

/-- A directory was made with all that is above it, or there was something of its name. -/
structure Made (path : CStr) (host after : Host) : Prop where
  grown : Grown host.tree after.tree
  cwd : after.cwd = host.cwd
  there : ∃ place, after.find path = some place ∧ (after.tree.get place).isSome

theorem createDirectory_made {after : Host} (made : createDirectory permits path host = (true, after)) :
    Made path host after := by
  have nonempty : path.bytes ≠ [] := by
    intro empty
    rw [createDirectory, if_pos empty] at made
    cases made
  have short : path.bytes.length < pathMax := by
    by_contra long
    rw [createDirectory, if_neg nonempty, if_pos (by omega)] at made
    cases made
  rw [createDirectory_eq nonempty short, Prod.mk.injEq] at made
  obtain ⟨worked, rfl⟩ := made
  have grown := @makePath_grown permits (strtok path.bytes 47) (host.start path) host.tree
  obtain ⟨tree, cwd⟩ := grown_tree grown.kept
  obtain ⟨place, found, there⟩ := makePath_there (start_there host path) worked
  refine ⟨by rwa [tree], cwd, place, ?_, by rwa [tree]⟩
  have starts : Host.start (host.grown (makePath permits (strtok path.bytes 47) (host.start path) host.tree).2) path =
      host.start path := by rw [Host.start, cwd]; rfl
  rw [find_eq nonempty, starts, tree, found]

end Components

section Upwards
variable {host : Host} {place above : TreePlace} {filename found : CStr} {name : List UInt8}

def IsFile (tree : DiskTree Content) (place : TreePlace) : Prop := ∃ content, tree.get place = some (.file content)

/-- The first place with a file of the name, from the directory upwards. -/
structure Nearest (tree : DiskTree Content) (name : List UInt8) (place above : TreePlace) : Prop where
  prefixed : above <+: place
  file : IsFile tree (above ++ [name])
  first : ∀ nearer, nearer <+: place → above.length < nearer.length → ¬ IsFile tree (nearer ++ [name])

/-- What `"%s/%s"` makes of the current directory and the name. -/
def candidate (place : TreePlace) (filename : CStr) : List UInt8 := Paths.render place ++ 47 :: filename.bytes

theorem render_root : Paths.render [] = [47] := rfl

theorem length_place (named : ∀ name ∈ place, FileName name) : place.length ≤ (Paths.render place).length := by
  induction place using List.reverseRecOn with
  | nil => exact Nat.zero_le _
  | append_singleton place name ih =>
    have before := ih fun other inside => named other (by simp [inside])
    have nonempty := List.length_pos_iff.mpr (named name (by simp)).nonempty
    rw [Paths.render_push]
    simp only [List.length_append, List.length_singleton]
    omega

theorem render_clean (named : ∀ name ∈ place, FileName name) : (0 : UInt8) ∉ Paths.render place := by
  intro inside
  induction place using List.reverseRecOn with
  | nil => simp [Paths.render] at inside
  | append_singleton place name ih =>
    rw [Paths.render_push] at inside
    obtain inside | inside := List.mem_append.mp inside
    · exact ih (fun other among => named other (by simp [among])) inside
    · have clean := (named name (by simp)).terminated
      split at inside <;> simp [clean] at inside

theorem candidate_bytes (named : ∀ name ∈ place, FileName name) :
    (CStr.ofBytes (candidate place filename)).bytes = candidate place filename := by
  apply CStr.ofBytes_eq
  intro inside
  obtain inside | inside := List.mem_append.mp inside
  · exact render_clean named inside
  · obtain inside | inside := List.mem_cons.mp inside
    · cases inside
    · exact filename.terminated inside

theorem candidate_found (directory : host.tree.get place = some .directory) (named : ∀ name ∈ place, FileName name)
    (file : FileName filename.bytes) : host.find (.ofBytes (candidate place filename)) = some (place ++ [filename.bytes]) := by
  have bytes := @candidate_bytes place filename named
  have names : ∀ name ∈ place, Paths.Name name := fun name inside => (named name inside).toName
  have segments : strtok (candidate place filename) 47 = place ++ [filename.bytes] := by
    rw [candidate, Paths.strtok_append, Paths.render, Paths.strtok_slash,
      strtok_join (fun name inside => (names name inside).whole) (fun name inside => (names name inside).nonempty),
      Paths.strtok_segment file.nonempty file.whole]
  have starts : Host.start host (.ofBytes (candidate place filename)) = [] := by
    rw [Host.start, bytes]
    rfl
  rw [find_eq (by rw [bytes]; simp [candidate]), starts, bytes, segments, locate_snoc (locate_names directory names),
    enter_name directory file.toName]

/-- A candidate exists exactly if there is a file of the name in the directory. -/
theorem candidate_exists (directory : host.tree.get place = some .directory) (named : ∀ name ∈ place, FileName name)
    (file : FileName filename.bytes) :
    fileExists host (.ofBytes (candidate place filename)) = true ↔ IsFile host.tree (place ++ [filename.bytes]) := by
  rw [fileExists, Host.stat, candidate_found directory named file, Option.bind_some, IsFile]
  cases host.tree.get (place ++ [filename.bytes]) with
  | none => simp
  | some node => cases node <;> simp

theorem trim_render (fits : FileName name) : trim (Paths.render (place ++ [name])) = some (Paths.render place) := by
  rw [Paths.render_push, trim]
  by_cases root : place = []
  · subst root
    have slash := strrchr_append fits.whole []
    simp only [List.nil_append, List.length_nil] at slash
    simp [Paths.render, slash]
  · have slash := strrchr_append fits.whole (Paths.render place)
    have long : (Paths.render place).length ≠ 0 := by simp [Paths.render]
    simp [root, slash, long]

/-- Without a file of the name in a directory, the search is one from the directory above. -/
theorem nearest_up {tree : DiskTree Content} {file : List UInt8} (missing : ¬ IsFile tree (place ++ [name] ++ [file])) :
    Nearest tree file (place ++ [name]) above ↔ Nearest tree file place above := by
  constructor
  · rintro ⟨prefixed, there, first⟩
    obtain same | prefixed := List.prefix_concat_iff.mp prefixed
    · rw [same] at there
      exact absurd there missing
    · exact ⟨prefixed, there, fun nearer inside => first nearer (inside.trans (List.prefix_append _ _))⟩
  · rintro ⟨prefixed, there, first⟩
    refine ⟨prefixed.trans (List.prefix_append _ _), there, fun nearer inside longer => ?_⟩
    obtain rfl | inside := List.prefix_concat_iff.mp inside
    · exact missing
    · exact first nearer inside longer

theorem nearest_here {tree : DiskTree Content} {file : List UInt8} (there : IsFile tree (place ++ [file])) :
    Nearest tree file place above ↔ above = place := by
  constructor
  · rintro ⟨prefixed, _, first⟩
    by_contra other
    have longer : above.length < place.length := by
      by_contra short
      exact other (prefixed.eq_of_length_le (by omega))
    exact first place (List.prefix_refl _) longer there
  · rintro rfl
    refine ⟨List.prefix_refl _, there, fun nearer inside longer => ?_⟩
    have := inside.length_le
    omega

theorem searchUpwards_step (fuel : Nat) (named : ∀ name ∈ place, FileName name)
    (short : (candidate place filename).length < pathMax) :
    searchUpwards host filename (fuel + 1) (Paths.render place) =
      if fileExists host (.ofBytes (candidate place filename)) then some (.ofBytes (candidate place filename))
      else if Paths.render place = [47] then none
      else (trim (Paths.render place)).bind (searchUpwards host filename fuel) := by
  have long : ¬ (CStr.ofBytes (candidate place filename)).bytes.length ≥ pathMax := by
    rw [candidate_bytes named]
    omega
  rw [searchUpwards]
  exact if_neg long

theorem searchUpwards_iff (file : FileName filename.bytes) {fuel : Nat} (directory : host.tree.get place = some .directory)
    (named : ∀ name ∈ place, FileName name) (short : (candidate place filename).length < pathMax)
    (enough : place.length < fuel) (found : CStr) :
    searchUpwards host filename fuel (Paths.render place) = some found ↔
      ∃ above, Nearest host.tree filename.bytes place above ∧ found = .ofBytes (candidate above filename) := by
  induction place using List.reverseRecOn generalizing fuel with
  | nil =>
    obtain ⟨fuel, rfl⟩ := Nat.exists_eq_add_one_of_ne_zero (Nat.ne_of_gt enough)
    rw [searchUpwards_step fuel named short]
    by_cases there : IsFile host.tree ([] ++ [filename.bytes])
    · rw [if_pos ((candidate_exists directory named file).mpr there)]
      simp [nearest_here there, eq_comm]
    · rw [if_neg (mt (candidate_exists directory named file).mp there), if_pos render_root]
      constructor
      · intro nothing
        cases nothing
      · rintro ⟨above, nearest, _⟩
        have root := List.prefix_nil.mp nearest.prefixed
        have other := nearest.file
        rw [root] at other
        exact absurd other there
  | append_singleton place name ih =>
    obtain ⟨fuel, rfl⟩ := Nat.exists_eq_add_one_of_ne_zero (Nat.ne_of_gt (Nat.zero_lt_of_lt enough))
    have fits : FileName name := named name (by simp)
    have others : ∀ other ∈ place, FileName other := fun other inside => named other (by simp [inside])
    rw [searchUpwards_step fuel named short]
    by_cases there : IsFile host.tree (place ++ [name] ++ [filename.bytes])
    · rw [if_pos ((candidate_exists directory named file).mpr there)]
      simp [nearest_here there, eq_comm]
    · have deeper : Paths.render (place ++ [name]) ≠ [47] := by
        have nonempty := fits.nonempty
        rw [Paths.render_push]
        simp [Paths.render, nonempty]
      have up := @DiskTree.above _ host.tree (place ++ [name]) (by rw [directory]; rfl)
      rw [List.dropLast_concat] at up
      have shorter : (candidate place filename).length < pathMax := by
        rw [candidate, Paths.render_push, List.length_append, List.length_append] at short
        rw [candidate, List.length_append]
        omega
      rw [List.length_append, List.length_singleton] at enough
      rw [if_neg (mt (candidate_exists directory named file).mp there), if_neg deeper, trim_render fits, Option.bind_some,
        ih up others shorter (by omega)]
      simp only [nearest_up there]

/-- The file that is found is the nearest one, unless the path of the deepest candidate is too long. -/
theorem fileFindUpwards_iff (host : Host) (file : FileName filename.bytes) (found : CStr) :
    fileFindUpwards host filename = some found ↔ (candidate host.cwd filename).length < pathMax ∧
      ∃ above, Nearest host.tree filename.bytes host.cwd above ∧ found = .ofBytes (candidate above filename) := by
  have length : (candidate host.cwd filename).length = (getcwd host).length + 1 + filename.bytes.length := by
    simp [candidate, getcwd]
    omega
  rw [fileFindUpwards, if_neg file.nonempty]
  by_cases short : (candidate host.cwd filename).length < pathMax
  · have enough := length_place host.named
    rw [if_neg (by omega), getcwd, searchUpwards_iff file (DiskTree.isDirectory_iff.mp host.inside) host.named short (by omega)]
    simp [short]
  · refine iff_of_false ?_ fun both => short both.1
    split
    next => simp
    next =>
      have long : (CStr.ofBytes (candidate host.cwd filename)).bytes.length ≥ pathMax := by
        rw [candidate_bytes host.named]
        omega
      have stops : searchUpwards host filename ((getcwd host).length + 1) (getcwd host) = none := by
        rw [searchUpwards]
        exact if_pos long
      simp [stops]

end Upwards
end Ltf.Proofs.FileTree
