import Ltf.LtfInit
import Ltf.Proofs.FileTree
import Ltf.Proofs.TargetRuns

/-! `ltf init`: what it leaves on the disk, and that the other commands find the project it has
made from every directory in it. -/

namespace Ltf.Proofs.LtfInit
open CString JsonC DirTree Ltf.FileTree Ltf.LtfInit Proofs.FileTree TargetRuns Version

variable {permits : Permits} {program : Program} {opts : CmdInitOptions} {host after later : Host} {place : TreePlace}

section Paths
variable {location : CStr} {name : String}

/-- There is room for the paths in a directory of this name. -/
def Roomy (location : CStr) : Prop := location.bytes ≠ [] ∧ location.bytes.length + 13 < pathMax

theorem pathIn_bytes (roomy : Roomy location) (fits : (CStr.lit name).bytes.length ≤ 12) :
    (pathIn location name).bytes = location.bytes ++ 47 :: (CStr.lit name).bytes := by
  have pieces : [location, .lit "/", .lit name].flatMap (·.bytes) = location.bytes ++ 47 :: (CStr.lit name).bytes := by
    have slash : (CStr.lit "/").bytes = [47] := by decide +kernel
    simp [slash]
  have clean : (0 : UInt8) ∉ location.bytes ++ 47 :: (CStr.lit name).bytes := by
    intro inside
    obtain inside | inside := List.mem_append.mp inside
    · exact location.terminated inside
    · obtain inside | inside := List.mem_cons.mp inside
      · cases inside
      · exact (CStr.lit name).terminated inside
  have room : ([location, CStr.lit "/", .lit name].flatMap (·.bytes)).length ≤ pathMax - 1 := by
    have := roomy.2
    rw [pieces, List.length_append, List.length_cons]
    omega
  rw [pathIn, snprintf, CStr.strndup, List.take_of_length_le room, pieces, CStr.ofBytes_eq clean]

/-- A path in a directory is walked from there. -/
theorem find_in (roomy : Roomy location) (fits : (CStr.lit name).bytes.length ≤ 12) (host : Host) :
    host.find (pathIn location name) =
      (host.find location).bind fun place => locate host.tree place (strtok (CStr.lit name).bytes 47) := by
  have bytes := pathIn_bytes roomy fits
  have starts : host.start (pathIn location name) = host.start location := by
    obtain ⟨byte, rest, starts⟩ := List.exists_cons_of_ne_nil roomy.1
    rw [Host.start, Host.start, bytes, starts]
    rfl
  rw [find_eq roomy.1, find_eq (by rw [bytes]; simp), starts, bytes, Paths.strtok_append, locate_append]

end Paths

section Steps
variable {path : CStr} {ret : Int} {s : Int × Host}

theorem needDirectory_done (fails : ret ≠ 0) (done : needDirectory permits path ret s = (0, after)) :
    s.1 = 0 ∧ Made path s.2 after := by
  unfold needDirectory at done
  split at done
  next wrong =>
    rw [done] at wrong
    exact absurd rfl wrong
  next right =>
    refine ⟨not_not.mp right, @createDirectory_made permits _ _ _ ?_⟩
    simp only [Prod.mk.injEq] at done
    obtain ⟨code, rfl⟩ := done
    split at code
    next made => rw [← made]
    next => exact absurd code fails

/-- A file is written where its path leads. -/
theorem writeFile_done {content : Content} (located : host.find path = some place)
    (wrote : writeFile permits path content host = some after) : after.cwd = host.cwd ∧ host.tree.get place ≠ some .directory ∧
      ∀ other, after.tree.get other = if other = place then some (.file content) else host.tree.get other := by
  rw [writeFile, located, Option.bind_eq_bind, Option.bind_some] at wrote
  split at wrote
  next =>
    obtain ⟨tree, added, same⟩ := Option.bind_eq_some_iff.mp wrote
    cases same
    have free := DiskTree.add_free added
    have placed := DiskTree.get_add added
    have inside : tree.isDirectory host.cwd := by
      have before := DiskTree.isDirectory_iff.mp host.inside
      rw [DiskTree.isDirectory_iff, placed, if_neg]
      · exact before
      · rintro rfl
        exact free before
    rw [Host.grown, dif_pos inside]
    exact ⟨rfl, free, placed⟩
  next => cases wrote

theorem find_grown (grown : Extends host.tree after.tree) (cwd : after.cwd = host.cwd) (found : host.find path = some place) :
    after.find path = some place := by
  obtain ⟨nonempty, located⟩ := find_iff.mp found
  have starts : after.start path = host.start path := by rw [Host.start, Host.start, cwd]
  exact find_iff.mpr ⟨nonempty, starts ▸ locate_extends grown located⟩

/-- A directory that was made with a plain name was not there before. -/
theorem made_fresh (down : [46, 46] ∉ strtok path.bytes 47) (kept : Extends host.tree after.tree)
    (cwd : after.cwd = host.cwd) (found : after.find path = some place) (directory : after.tree.get place = some .directory)
    (refused : directoryExists host path = false) : host.tree.get place = none := by
  cases there : host.tree.get place with
  | none => rfl
  | some node =>
    have same := kept place node there
    rw [directory] at same
    cases same
    have before : host.find path = some place := by
      obtain ⟨nonempty, located⟩ := find_iff.mp found
      have starts : after.start path = host.start path := by rw [Host.start, Host.start, cwd]
      exact find_iff.mpr ⟨nonempty, locate_before down (starts ▸ located) there⟩
    simp [directoryExists, Host.stat, before, there] at refused

end Steps

section Directories

def libName : List UInt8 := (CStr.lit "lib").bytes

def testsName : List UInt8 := (CStr.lit "tests").bytes

def commonName : List UInt8 := (CStr.lit "common").bytes

/-- The directory of the project and the ones in it. -/
structure Directories (opts : CmdInitOptions) (host after : Host) (place : TreePlace) : Prop where
  grown : Grown host.tree after.tree
  cwd : after.cwd = host.cwd
  located : after.find opts.projectName = some place
  directory : after.tree.get place = some .directory
  lib : (after.tree.get (place ++ [libName])).isSome
  tests : (after.tree.get (place ++ [testsName])).isSome
  common : opts.multitarget = true → (after.tree.get (place ++ [testsName, commonName])).isSome

theorem Made.trans {first second : CStr} {middle : Host} (one : Made first host middle) (two : Made second middle after) :
    Grown host.tree after.tree ∧ after.cwd = host.cwd := ⟨one.grown.trans two.grown, two.cwd.trans one.cwd⟩

/-- What was made in the directory of the project. -/
theorem made_in {name : String} (roomy : Roomy opts.projectName) (fits : (CStr.lit name).bytes.length ≤ 12)
    (located : after.find opts.projectName = some place) (made : Made (pathIn opts.projectName name) host after) :
    ∃ inner, locate after.tree place (strtok (CStr.lit name).bytes 47) = some inner ∧ (after.tree.get inner).isSome := by
  obtain ⟨inner, found, there⟩ := made.there
  rw [find_in roomy fits, located, Option.bind_some] at found
  exact ⟨inner, found, there⟩

theorem entered_name {name : List UInt8} {tree : DiskTree Content} (fits : Paths.Name name) {place inner : TreePlace}
    (found : locate tree place [name] = some inner) : tree.get place = some .directory ∧ inner = place ++ [name] := by
  rw [locate_one, enter] at found
  split at found
  next directory =>
    cases found
    exact ⟨DiskTree.isDirectory_iff.mp directory, Paths.climb_name fits⟩
  next => cases found

theorem segments_one : strtok (CStr.lit "lib").bytes 47 = [libName] ∧ strtok (CStr.lit "tests").bytes 47 = [testsName] ∧
    strtok (CStr.lit "tests/common").bytes 47 = [testsName, commonName] := by decide +kernel

theorem names_fit : Paths.Name libName ∧ Paths.Name testsName ∧ Paths.Name commonName := by
  refine ⟨⟨?_, ?_, ?_, ?_⟩, ⟨?_, ?_, ?_, ?_⟩, ⟨?_, ?_, ?_, ?_⟩⟩ <;> decide +kernel

/-- The directories that every project has. -/
theorem plain_directories {first second : Host} (roomy : Roomy opts.projectName) (made : Made opts.projectName host first)
    (lib : Made (pathIn opts.projectName "lib") first second) (tests : Made (pathIn opts.projectName "tests") second after) :
    ∃ place, Directories { opts with multitarget := false } host after place := by
  obtain ⟨segment, next, _⟩ := segments_one
  obtain ⟨lib_fits, tests_fits, _⟩ := names_fit
  obtain ⟨place, found, _⟩ := made.there
  have later := lib.grown.trans tests.grown
  have located := find_grown lib.grown.kept lib.cwd found
  obtain ⟨inner, inside, there⟩ := made_in roomy (by decide +kernel) located lib
  rw [segment] at inside
  obtain ⟨directory, rfl⟩ := entered_name lib_fits inside
  have still := find_grown tests.grown.kept tests.cwd located
  obtain ⟨other, beside, also⟩ := made_in roomy (by decide +kernel) still tests
  rw [next] at beside
  obtain ⟨directory, rfl⟩ := entered_name tests_fits beside
  exact ⟨place, made.grown.trans later, tests.cwd.trans (lib.cwd.trans made.cwd), still, directory,
    tests.grown.kept.isSome there, also, nofun⟩

theorem directories_done (roomy : Roomy opts.projectName) (done : needDirectories permits opts host = (0, after)) :
    ∃ place, Directories opts host after place := by
  have chain : ∀ last, needDirectory permits (pathIn opts.projectName "tests") (-3)
      (needDirectory permits (pathIn opts.projectName "lib") (-2) (needDirectory permits opts.projectName (-1) (0, host))) =
        (0, last) → ∃ place, Directories { opts with multitarget := false } host last place := by
    intro last done
    obtain ⟨code, tests⟩ := needDirectory_done (by decide) done
    obtain ⟨code, lib⟩ := needDirectory_done (by decide) (Prod.ext code rfl)
    obtain ⟨_, made⟩ := needDirectory_done (by decide) (Prod.ext code rfl)
    exact plain_directories roomy made lib tests
  simp only [needDirectories] at done
  split at done
  next multi =>
    obtain ⟨code, common⟩ := needDirectory_done (by decide) done
    obtain ⟨place, dirs⟩ := chain _ (Prod.ext code rfl)
    have located := find_grown common.grown.kept common.cwd dirs.located
    obtain ⟨inner, inside, there⟩ := made_in roomy (by decide +kernel) located common
    obtain ⟨_, tests_fits, common_fits⟩ := names_fit
    have directory := common.grown.kept _ _ dirs.directory
    have first := (locate_one after.tree place testsName).trans (enter_name directory tests_fits)
    have segments : [testsName, commonName] = [testsName] ++ [commonName] := rfl
    rw [segments_one.2.2, segments, locate_append, first, Option.bind_some] at inside
    obtain ⟨_, rfl⟩ := entered_name common_fits inside
    rw [List.append_assoc, List.singleton_append] at there
    exact ⟨place, dirs.grown.trans common.grown, common.cwd.trans dirs.cwd, located, directory,
      common.grown.kept.isSome dirs.lib, common.grown.kept.isSome dirs.tests, fun _ => there⟩
  next single =>
    obtain ⟨place, dirs⟩ := chain _ done
    exact ⟨place, dirs.grown, dirs.cwd, dirs.located, dirs.directory, dirs.lib, dirs.tests, fun multi => absurd multi single⟩

end Directories

section Created

def projectFileName : List UInt8 := (CStr.lit ".ltf.json").bytes

def gitignoreName : List UInt8 := (CStr.lit ".gitignore").bytes

def luarcName : List UInt8 := (CStr.lit ".luarc.json").bytes

def header (program : Program) (opts : CmdInitOptions) : Header :=
  ⟨opts.projectName, program.version, program.major, program.minor, program.patch⟩

/-- A new project in a new directory, with everything else as it was. -/
structure Created (program : Program) (opts : CmdInitOptions) (host after : Host) (place : TreePlace) : Prop where
  located : after.find opts.projectName = some place
  fresh : host.tree.get place = none
  kept : Extends host.tree after.tree
  cwd : after.cwd = host.cwd
  project : after.tree.get (place ++ [projectFileName]) =
    some (.file (.json (savedJson (header program opts) opts.multitarget [])))
  gitignore : after.tree.get (place ++ [gitignoreName]) = some (.file (.text gitignoreContents.bytes))
  luarc : after.tree.get (place ++ [luarcName]) = some (.file (.text luarcContents.bytes))
  lib : after.tree.get (place ++ [libName]) = some .directory
  tests : after.tree.get (place ++ [testsName]) = some .directory
  common : opts.multitarget = true → after.tree.get (place ++ [testsName, commonName]) = some .directory
  others : ∀ other node, after.tree.get other = some node → host.tree.get other = some node ∨ node = .directory ∨
    other ∈ [projectFileName, gitignoreName, luarcName].map fun name => place ++ [name]

theorem save_new (program : Program) (opts : CmdInitOptions) :
    projectParserSave (newProject program opts) = .ok (savedJson (header program opts) opts.multitarget []) := by
  have record : newProject program opts =
      { loaded (header program opts) opts.projectName opts.multitarget [] with targets := some [] } := rfl
  rw [record]
  exact save_eq (header program opts) opts.projectName opts.multitarget (.inl rfl)

/-- At most a directory is in the place of a file. -/
def Unset (tree : DiskTree Content) (place : TreePlace) : Prop := ∀ node, tree.get place = some node → node = .directory

/-- What fits into the paths of the project. -/
structure Fits (name : String) (fileName : List UInt8) : Prop where
  short : (CStr.lit name).bytes.length ≤ 12
  segment : strtok (CStr.lit name).bytes 47 = [fileName]
  name : Paths.Name fileName

def fileAt (place : TreePlace) (files : List (List UInt8 × Content)) (other : TreePlace) : Option (Node Content) :=
  (files.find? fun file => other = place ++ [file.1]).map fun file => .file file.2

/-- Since the directories were made, these files have been written and nothing else. -/
structure Written (place : TreePlace) (files : List (List UInt8 × Content)) (middle after : Host) : Prop where
  cwd : after.cwd = middle.cwd
  kept : Extends middle.tree after.tree
  get : ∀ other, after.tree.get other = (fileAt place files other).or (middle.tree.get other)

theorem Written.none (place : TreePlace) (middle : Host) : Written place [] middle middle := ⟨rfl, .refl _, fun _ => rfl⟩

/-- A file more, where there was at most a directory; and that the system refuses. -/
theorem Written.more {name : String} {fileName : List UInt8} {content : Content} {files : List (List UInt8 × Content)}
    {middle next : Host} (written : Written place files middle after) (roomy : Roomy opts.projectName)
    (dirs : Directories opts host middle place) (unset : Unset middle.tree (place ++ [fileName]))
    (fits : Fits name fileName) (new : fileName ∉ files.map Prod.fst)
    (wrote : writeFile permits (pathIn opts.projectName name) content after = some next) :
    Written place (files ++ [(fileName, content)]) middle next := by
  have located := find_grown written.kept written.cwd dirs.located
  have found : after.find (pathIn opts.projectName name) = some (place ++ [fileName]) := by
    rw [find_in roomy fits.short, located, Option.bind_some, fits.segment, locate_one,
      enter_name (written.kept _ _ dirs.directory) fits.name]
  obtain ⟨cwd, free, placed⟩ := writeFile_done found wrote
  have elsewhere : files.find? (fun file => fileName = file.1) = Option.none := by
    rw [List.find?_eq_none]
    intro file inside same
    exact new (List.mem_map.mpr ⟨file, inside, (of_decide_eq_true same).symm⟩)
  refine ⟨cwd.trans written.cwd, ?_, fun other => ?_⟩
  · intro other node there
    rw [placed]
    split
    next same =>
      have still := written.kept other node there
      rw [same] at there still
      rw [unset node there] at still
      exact absurd still free
    next => exact written.kept other node there
  · rw [placed]
    by_cases same : other = place ++ [fileName]
    · rw [if_pos same, same, fileAt, List.find?_append]
      simp [elsewhere]
    · rw [if_neg same, written.get, fileAt, fileAt, List.find?_append]
      simp [same]

theorem project_fits : Fits ".ltf.json" projectFileName := ⟨by decide +kernel, by decide +kernel, ⟨by decide +kernel,
  by decide +kernel, by decide +kernel, by decide +kernel⟩⟩

theorem gitignore_fits : Fits ".gitignore" gitignoreName := ⟨by decide +kernel, by decide +kernel, ⟨by decide +kernel,
  by decide +kernel, by decide +kernel, by decide +kernel⟩⟩

theorem luarc_fits : Fits ".luarc.json" luarcName := ⟨by decide +kernel, by decide +kernel, ⟨by decide +kernel,
  by decide +kernel, by decide +kernel, by decide +kernel⟩⟩

theorem files_differ : gitignoreName ≠ projectFileName ∧ luarcName ≠ projectFileName ∧ luarcName ≠ gitignoreName := by
  decide +kernel

/-- The files of a project in the order in which they are written. -/
def projectFiles (program : Program) (opts : CmdInitOptions) : List (List UInt8 × Content) := [
  (projectFileName, .json (savedJson (header program opts) opts.multitarget [])),
  (gitignoreName, .text gitignoreContents.bytes),
  (luarcName, .text luarcContents.bytes)]

/-- In a new directory there are at most directories until files are written. -/
theorem Directories.bare (dirs : Directories opts host after place) (fresh : host.tree.get place = none)
    (rest : TreePlace) : Unset after.tree (place ++ rest) := by
  intro node there
  obtain before | directory := dirs.grown.fresh _ node there
  · rw [fresh_below fresh (List.prefix_append place rest)] at before
    cases before
  · exact directory

theorem created_of_written {middle : Host} (dirs : Directories opts host middle place) (fresh : host.tree.get place = none)
    (written : Written place (projectFiles program opts) middle after) : Created program opts host after place := by
  obtain ⟨first, second, third⟩ := files_differ
  have directory : ∀ rest, (middle.tree.get (place ++ rest)).isSome → after.tree.get (place ++ rest) = some .directory := by
    intro rest there
    obtain ⟨node, there⟩ := Option.isSome_iff_exists.mp there
    rw [written.kept _ _ there, dirs.bare fresh rest node there]
  exact {
    located := find_grown written.kept written.cwd dirs.located
    fresh := fresh
    kept := dirs.grown.kept.trans written.kept
    cwd := written.cwd.trans dirs.cwd
    project := by simp [written.get, fileAt, projectFiles]
    gitignore := by simp [written.get, fileAt, projectFiles, first]
    luarc := by simp [written.get, fileAt, projectFiles, second, third]
    lib := directory _ dirs.lib
    tests := directory _ dirs.tests
    common := fun multi => directory _ (dirs.common multi)
    others := by
      intro other node there
      rw [written.get, Option.or_eq_some_iff] at there
      obtain named | ⟨_, before⟩ := there
      · right
        right
        obtain ⟨file, found, rfl⟩ := Option.map_eq_some_iff.mp named
        have inside : file.1 ∈ (projectFiles program opts).map Prod.fst :=
          List.mem_map_of_mem (List.mem_of_find?_eq_some found)
        have same : other = place ++ [file.1] := of_decide_eq_true (@List.find?_some _ _ file _ found)
        exact List.mem_map.mpr ⟨file.1, inside, same.symm⟩
      · obtain before | fresh := dirs.grown.fresh other node before
        · exact .inl before
        · exact .inr (.inl fresh) }

theorem createFile_eq (name : String) (contents : CStr) (ret : Int) (host : Host) :
    createFile permits opts name contents ret (0, host) =
      match writeFile permits (pathIn opts.projectName name) (.text contents.bytes) host with
      | some after => (0, after)
      | none => (ret, host) := rfl

/-- With the directories and the project file there, the other files come to them. -/
theorem createFiles_ends {middle saved : Host} (roomy : Roomy opts.projectName) (dirs : Directories opts host middle place)
    (fresh : host.tree.get place = none)
    (written : Written place ((projectFiles program opts).take 1) middle saved) :
    Extends middle.tree (createFiles permits opts saved).2.tree ∧
      ((createFiles permits opts saved).1 = .created →
        Written place (projectFiles program opts) middle (createFiles permits opts saved).2) := by
  obtain ⟨first, second, third⟩ := files_differ
  rw [createFiles, createFile_eq]
  cases one : writeFile permits (pathIn opts.projectName ".gitignore") (.text gitignoreContents.bytes) saved with
  | none => exact ⟨written.kept, nofun⟩
  | some between =>
    have ignored := written.more roomy dirs (dirs.bare fresh _) gitignore_fits (by simpa [projectFiles] using first) one
    simp only
    rw [createFile_eq]
    cases two : writeFile permits (pathIn opts.projectName ".luarc.json") (.text luarcContents.bytes) between with
    | none => exact ⟨ignored.kept, nofun⟩
    | some after =>
      have all := ignored.more roomy dirs (dirs.bare fresh _) luarc_fits (by simpa [projectFiles] using ⟨second, third⟩) two
      exact ⟨all.kept, fun _ => all⟩

theorem needDirectory_grown (permits : Permits) (path : CStr) (ret : Int) (s : Int × Host) :
    Grown s.2.tree (needDirectory permits path ret s).2.tree := by
  unfold needDirectory
  split
  · exact .refl _
  · exact (createDirectory_grown permits path s.2).1

theorem needDirectories_grown (permits : Permits) (opts : CmdInitOptions) (host : Host) :
    Grown host.tree (needDirectories permits opts host).2.tree := by
  have made := needDirectory_grown permits opts.projectName (-1) (0, host)
  have lib := made.trans (needDirectory_grown permits (pathIn opts.projectName "lib") (-2) _)
  have tests := lib.trans (needDirectory_grown permits (pathIn opts.projectName "tests") (-3) _)
  simp only [needDirectories]
  split
  · exact tests.trans (needDirectory_grown permits _ _ _)
  · exact tests

/-- Nothing that was there is changed, whatever goes wrong. -/
theorem createProject_ends (permits : Permits) (program : Program) (roomy : Roomy opts.projectName)
    (down : [46, 46] ∉ strtok opts.projectName.bytes 47) (refused : directoryExists host opts.projectName = false) :
    ∃ result after, createProject permits program opts host = .ok (result, after) ∧ Extends host.tree after.tree ∧
      (result = .created → ∃ place, Created program opts host after place) := by
  have grown := needDirectories_grown permits opts host
  rcases needed : needDirectories permits opts host with ⟨ret, middle⟩
  rw [needed] at grown
  rw [createProject, needed]
  by_cases right : ret = 0
  · subst right
    obtain ⟨place, dirs⟩ := directories_done roomy needed
    have fresh := made_fresh down dirs.grown.kept dirs.cwd dirs.located dirs.directory refused
    simp only [ne_eq, not_true_eq_false, if_false]
    rw [Steps.bind_of_ok (save_new program opts)]
    cases wrote : writeFile permits (pathIn opts.projectName ".ltf.json")
        (.json (savedJson (header program opts) opts.multitarget [])) middle with
    | none => exact ⟨_, _, rfl, grown.kept, nofun⟩
    | some saved =>
      have written := (Written.none place middle).more roomy dirs (dirs.bare fresh _) project_fits (by simp) wrote
      obtain ⟨kept, all⟩ := @createFiles_ends permits program opts host place middle saved roomy dirs fresh written
      exact ⟨_, _, rfl, grown.kept.trans kept, fun created => ⟨place, created_of_written dirs fresh (all created)⟩⟩
  · simp only [ne_eq, right, not_false_eq_true, if_true]
    exact ⟨_, _, rfl, grown.kept, nofun⟩

end Created

section Found
variable {lib : Coercions} {parseText : List UInt8 → Option Json}

/-- The header as it is read again: a number is clamped to an `int`. -/
def readBack (lib : Coercions) (header : Header) : Header := { header with
  major := getInt lib (.int header.major)
  minor := getInt lib (.int header.minor)
  patch := getInt lib (.int header.patch) }

theorem saved_parsed (header : Header) (path : CStr) (multitarget : Bool) :
    projectParserParse lib path (savedJson header multitarget []) =
      .ok (some (loaded (readBack lib header) path multitarget [])) := by
  obtain ⟨name, version, major, minor, patch, flag, array⟩ := @saved_get lib header multitarget []
  have object : ∃ fields, savedJson header multitarget [] = .object fields := by
    cases multitarget <;> exact ⟨_, rfl⟩
  obtain ⟨fields, object⟩ := object
  rw [object] at name version major minor patch flag array ⊢
  unfold projectParserParse projectParseJson projectParseHeader
  cases multitarget with
  | false => simp [name, version, major, minor, patch, flag, loaded, readBack, pure, Except.pure]
  | true => simp [name, version, major, minor, patch, flag, projectParseTargets, array, loaded, readBack, pure, Except.pure,
      bind, Except.bind]

/-- A process that runs in a directory of the project, with no other project in between. -/
structure Inside (place : TreePlace) (later : Host) : Prop where
  below : place <+: later.cwd
  alone : ∀ nearer, nearer <+: later.cwd → place.length < nearer.length → ¬ IsFile later.tree (nearer ++ [projectFileName])
  short : (candidate later.cwd (.lit ".ltf.json")).length < pathMax

theorem file_name : FileName projectFileName := ⟨project_fits.name, by decide +kernel⟩

theorem dirname_candidate (named : ∀ name ∈ place, FileName name) (inner : place ≠ []) :
    dirname (.ofBytes (candidate place (.lit ".ltf.json"))) = .ofBytes (Paths.render place) := by
  have slash : strrchr (candidate place (.lit ".ltf.json")) 47 = some (Paths.render place).length :=
    strrchr_append file_name.whole _
  obtain ⟨above, name, rfl⟩ := (List.eq_nil_or_concat' place).resolve_left inner
  have fits := named name (by simp)
  have last : (Paths.render (above ++ [name])).rdropWhile (· = 47) = Paths.render (above ++ [name]) := by
    obtain ⟨front, byte, rfl⟩ := (List.eq_nil_or_concat' name).resolve_left fits.nonempty
    have other : byte ≠ 47 := by
      rintro rfl
      exact fits.whole (by simp)
    rw [Paths.render_push, ← List.append_assoc, ← List.append_assoc, List.rdropWhile_concat_neg _ _ _ (by simpa using other)]
  have some_there : Paths.render (above ++ [name]) ≠ [] := by simp [Paths.render]
  rw [dirname, candidate_bytes named, slash, Option.getD_some, candidate, List.take_left, last, if_pos some_there]

/-- The project is the one that is found, wherever in it the process is. -/
theorem parsed_inside {project : Header} {multitarget : Bool} (inner : place ≠ []) (inside : Inside place later)
    (there : later.tree.get (place ++ [projectFileName]) = some (.file (.json (savedJson project multitarget [])))) :
    parseHere lib parseText later =
      .ok (some (loaded (readBack lib project) (.ofBytes (Paths.render place)) multitarget [])) := by
  have named : ∀ name ∈ place, FileName name := fun name among => later.named name (inside.below.subset among)
  have directory : later.tree.get place = some .directory :=
    directory_above (DiskTree.isDirectory_iff.mp later.inside) inside.below
  have found : fileFindUpwards later (.lit ".ltf.json") = some (.ofBytes (candidate place (.lit ".ltf.json"))) := by
    rw [fileFindUpwards_iff later file_name]
    exact ⟨inside.short, place, ⟨inside.below, ⟨_, there⟩, inside.alone⟩, rfl⟩
  have content : later.stat (.ofBytes (candidate place (.lit ".ltf.json"))) =
      some (.file (.json (savedJson project multitarget []))) := by
    rw [Host.stat, candidate_found directory named file_name, Option.bind_some]
    exact there
  rw [parseHere, findProject, found]
  simp only
  rw [content]
  simp only [dirname_candidate named inner, fromFile, saved_parsed]

end Found

/-- Every command that is run in the project, as long as its file is the same, finds just this project. -/
def FoundInside (project : Header) (multitarget : Bool) (after : Host) (place : TreePlace) : Prop :=
  ∀ later, Inside place later → later.tree.get (place ++ [projectFileName]) = after.tree.get (place ++ [projectFileName]) →
    ∀ lib parseText, parseHere lib parseText later =
      .ok (some (loaded (readBack lib project) (.ofBytes (Paths.render place)) multitarget []))

/-- The project is there, and it is found. -/
def Project (program : Program) (opts : CmdInitOptions) (host after : Host) : Prop :=
  ∃ place, Created program opts host after place ∧ FoundInside (header program opts) opts.multitarget after place

/-- What the command does once the internal log is open. -/
theorem project_made (permits : Permits) (program : Program) (host : Host) (roomy : Roomy opts.projectName)
    (down : [46, 46] ∉ strtok opts.projectName.bytes 47) :
    ∃ result after, initProject permits program opts host = .ok (result, after) ∧ Extends host.tree after.tree ∧
      (result = .created → Project program opts host after) := by
  unfold initProject
  split
  next => exact ⟨_, _, rfl, .refl _, nofun⟩
  next =>
    split
    next => exact ⟨_, _, rfl, .refl _, nofun⟩
    next refused =>
      obtain ⟨result, after, ran, kept, all⟩ :=
        createProject_ends permits program roomy down (Bool.not_eq_true _ ▸ refused)
      refine ⟨result, after, ran, kept, fun made => ?_⟩
      obtain ⟨place, created⟩ := all made
      refine ⟨place, created, fun later inside same lib parseText => ?_⟩
      have inner : place ≠ [] := by
        rintro rfl
        have fresh := created.fresh
        cases fresh
      exact parsed_inside inner inside (same.trans created.project)

/-- The disk with the internal log on it, in a place where no directory was, if there is to be one. -/
def Opened (opts : CmdInitOptions) (dateTimeNow : CStr) (internalLog : List UInt8) (host opened : Host) : Prop :=
  if opts.internalLogging then
    opened.cwd = host.cwd ∧ ∃ place, host.find (internalLogFilePath dateTimeNow) = some place ∧
      host.tree.get place ≠ some .directory ∧
      ∀ other, opened.tree.get other = if other = place then some (.file (.text internalLog)) else host.tree.get other
  else opened = host

/-- `ltf init` with a name that has no `..` leaves all as it was, but for its internal log and a new project that
is found from every directory in it. -/
theorem init_makes_project (permits : Permits) (program : Program) (opts : CmdInitOptions) (dateTimeNow : CStr)
    (internalLog : List UInt8) (host : Host) (roomy : Roomy opts.projectName)
    (down : [46, 46] ∉ strtok opts.projectName.bytes 47) :
    (opts.internalLogging = true ∧ ltfInit permits program opts dateTimeNow internalLog host = .ok (.noInternalLog, host)) ∨
    ∃ opened result after, Opened opts dateTimeNow internalLog host opened ∧
      ltfInit permits program opts dateTimeNow internalLog host = .ok (result, after) ∧
      Extends opened.tree after.tree ∧ (result = .created → Project program opts opened after) := by
  cases noted : opts.internalLogging with
  | false =>
    obtain ⟨result, after, ran, made⟩ := project_made permits program host roomy down
    refine .inr ⟨host, result, after, ?_, ?_, made⟩
    · simp [Opened, noted]
    · simpa [ltfInit, noted] using ran
  | true =>
    cases wrote : writeFile permits (internalLogFilePath dateTimeNow) (.text internalLog) host with
    | none =>
      refine .inl ⟨rfl, ?_⟩
      simp only [ltfInit, noted, if_true, wrote]
      rfl
    | some opened =>
      obtain ⟨place, located⟩ : ∃ place, host.find (internalLogFilePath dateTimeNow) = some place := by
        obtain ⟨place, located, _⟩ := Option.bind_eq_some_iff.mp wrote
        exact ⟨place, located⟩
      obtain ⟨cwd, free, placed⟩ := writeFile_done located wrote
      obtain ⟨result, after, ran, made⟩ := project_made permits program opened roomy down
      refine .inr ⟨opened, result, after, ?_, ?_, made⟩
      · rw [Opened, if_pos noted]
        exact ⟨cwd, place, located, free, placed⟩
      · simpa only [ltfInit, noted, if_true, wrote] using ran

def newOptions : CmdInitOptions where
  projectName := .lit "work/p"
  multitarget := true
  internalLogging := true

/-- A process in the root of an empty disk. -/
def emptyHost : Host where
  tree := .empty
  cwd := []
  inside := rfl
  named := nofun

def newProgram : Program := ⟨2, 0, 0, .lit "2.0.0"⟩

def newInit : Managed (InitResult × Host) :=
  ltfInit (fun _ => true) newProgram newOptions (.lit "01.02.26-12:00:00") [10] emptyHost

theorem new_project_made : newInit.toOption.map Prod.fst = some .created ∧ ∃ opened result after,
    Opened newOptions (.lit "01.02.26-12:00:00") [10] emptyHost opened ∧ newInit = .ok (result, after) ∧
      Extends opened.tree after.tree ∧ (result = .created → Project newProgram newOptions opened after) := by
  have made : newInit.toOption.map Prod.fst = some .created := by decide +kernel
  have ends := init_makes_project (fun _ => true) newProgram newOptions (.lit "01.02.26-12:00:00") [10] emptyHost
    ⟨by decide +kernel, by decide +kernel⟩ (by decide +kernel)
  refine ⟨made, ends.resolve_left ?_⟩
  rintro ⟨_, unopened⟩
  rw [newInit, unopened] at made
  cases made

end Ltf.Proofs.LtfInit
