import Ltf.Base.CString

/-! Paths by their text alone: the segments between slashes, folded over a stack of those
that are kept, and written again from the root. -/

namespace Paths
open CString

/-- One segment against those kept so far: `.` stays and `..` goes up, at the root it stays. -/
def climb (kept : List (List UInt8)) (segment : List UInt8) : List (List UInt8) :=
  if segment = [46] then kept
  else if segment = [46, 46] then kept.dropLast
  else kept ++ [segment]

def resolve (path : List UInt8) : List (List UInt8) := (strtok path 47).foldl climb []

def render (segments : List (List UInt8)) : List UInt8 := 47 :: [47].intercalate segments

def lexical (path : List UInt8) : List UInt8 := render (resolve path)

/-- A segment that is kept as it is. -/
structure Name (segment : List UInt8) : Prop where
  nonempty : segment ≠ []
  whole : (47 : UInt8) ∉ segment
  here : segment ≠ [46]
  up : segment ≠ [46, 46]

variable {kept names : List (List UInt8)} {segment rest path : List UInt8}

section Segments

theorem strtok_slash (rest : List UInt8) : strtok (47 :: rest) 47 = strtok rest 47 := by
  simp [strtok, List.splitOn_cons_eq_if_modifyHead]

theorem strtok_slashes {slashes : List UInt8} (only : ∀ byte ∈ slashes, byte = 47) (rest : List UInt8) :
    strtok (slashes ++ rest) 47 = strtok rest 47 := by
  induction slashes with
  | nil => rfl
  | cons byte slashes ih =>
    rw [List.forall_mem_cons] at only
    rw [only.1, List.cons_append, strtok_slash]
    exact ih only.2

theorem strtok_segment (nonempty : segment ≠ []) (whole : (47 : UInt8) ∉ segment) : strtok segment 47 = [segment] := by
  simp [strtok, List.splitOn_eq_singleton whole, nonempty]

theorem strtok_cons (nonempty : segment ≠ []) (whole : (47 : UInt8) ∉ segment) (rest : List UInt8) :
    strtok (segment ++ 47 :: rest) 47 = segment :: strtok rest 47 := by
  simp [strtok, List.splitOn_append_cons_self_of_not_mem whole, nonempty]

theorem strtok_only {slashes : List UInt8} (only : ∀ byte ∈ slashes, byte = 47) : strtok slashes 47 = [] := by
  have none := strtok_slashes only []
  rwa [List.append_nil] at none

/-- The first segment, and those that are left behind it. -/
theorem strtok_next {slashes : List UInt8} (only : ∀ byte ∈ slashes, byte = 47) (nonempty : segment ≠ [])
    (whole : (47 : UInt8) ∉ segment) (ends : rest = [] ∨ ∃ more, rest = 47 :: more) :
    strtok (slashes ++ (segment ++ rest)) 47 = segment :: strtok rest 47 := by
  rw [strtok_slashes only]
  obtain rfl | ⟨more, rfl⟩ := ends
  · rw [List.append_nil, strtok_segment nonempty whole]
    rfl
  · rw [strtok_cons nonempty whole, strtok_slash]

theorem strtok_append (path rest : List UInt8) : strtok (path ++ 47 :: rest) 47 = strtok path 47 ++ strtok rest 47 := by
  rw [strtok, List.splitOn_append_cons_self, List.filter_append]
  rfl

theorem length_splitOn (path : List UInt8) : (path.splitOn 47).length = path.count 47 + 1 := by
  induction path with
  | nil => rfl
  | cons byte path ih =>
    rw [List.splitOn_cons_eq_if_modifyHead, List.count_cons]
    split
    next slash => simp [ih]
    next other => simp [ih]

theorem length_strtok (path : List UInt8) : (strtok path 47).length ≤ path.count 47 + 1 := by
  rw [← length_splitOn]
  exact List.length_filter_le ..

theorem dropWhile_stops {stays : UInt8 → Bool} {byte : UInt8} {text more : List UInt8}
    (start : text.dropWhile stays = byte :: more) : stays byte = false := by
  have head := List.head_dropWhile_not stays (start.trans_ne (List.cons_ne_nil byte more))
  simpa only [start, List.head_cons] using head

/-- A path has no segment any more, or slashes, a segment, and what comes behind it. -/
theorem next_segment (path : List UInt8) :
    (∀ byte ∈ path, byte = 47) ∨ ∃ slashes segment rest, path = slashes ++ (segment ++ rest) ∧
      (∀ byte ∈ slashes, byte = 47) ∧ segment ≠ [] ∧ (47 : UInt8) ∉ segment ∧
      (rest = [] ∨ ∃ more, rest = 47 :: more) := by
  by_cases only : ∀ byte ∈ path, byte = 47
  · exact .inl only
  · right
    let behind := path.dropWhile (· = 47)
    refine ⟨path.takeWhile (· = 47), behind.takeWhile (· ≠ 47), behind.dropWhile (· ≠ 47), ?_, ?_, ?_, ?_, ?_⟩
    · rw [List.takeWhile_append_dropWhile, List.takeWhile_append_dropWhile]
    · intro byte inside
      simpa using List.mem_takeWhile_imp inside
    · cases start : behind with
      | nil =>
        have every := List.dropWhile_eq_nil_iff.mp start
        exact absurd (fun byte inside => by simpa using every byte inside) only
      | cons byte more =>
        have other : byte ≠ 47 := by simpa using dropWhile_stops start
        simp [other]
    · intro inside
      simpa using List.mem_takeWhile_imp inside
    · cases start : behind.dropWhile (· ≠ 47) with
      | nil => exact .inl rfl
      | cons byte more =>
        right
        have slash : byte = 47 := by simpa using dropWhile_stops start
        exact ⟨more, by rw [slash]⟩

end Segments

section Scan
variable {slashes before : List UInt8}

/-- In front of its NUL, a buffer has a segment from one offset to another. -/
structure SegmentAt (buffer : List UInt8) (p seg stop : Nat) : Prop where
  here : ∃ byte, buffer[p]? = some byte ∧ byte ≠ 0
  start : scan (· = 47) buffer p = some seg
  found : ∃ byte, buffer[seg]? = some byte ∧ byte ≠ 0
  stop : scan (fun byte => byte ≠ 0 && byte ≠ 47) buffer seg = some stop

theorem byte_behind (before after : List UInt8) (byte : UInt8) :
    (before ++ byte :: after)[before.length]? = some byte := by
  simp

theorem scan_segment (only : ∀ byte ∈ slashes, byte = 47) (nonempty : segment ≠ []) (whole : (47 : UInt8) ∉ segment)
    (ends : rest = [] ∨ ∃ more, rest = 47 :: more) (clean : (0 : UInt8) ∉ slashes ++ (segment ++ rest)) :
    SegmentAt (before ++ (slashes ++ (segment ++ rest) ++ [0])) before.length (before ++ slashes).length
      (before ++ slashes ++ segment).length := by
  obtain ⟨first, others, rfl⟩ := List.exists_cons_of_ne_nil nonempty
  have other : first ≠ 47 := fun same => whole (by simp [same])
  have tail : ∃ byte after, rest ++ [0] = byte :: after ∧ (byte ≠ 0 && byte ≠ 47) = false := by
    obtain rfl | ⟨more, rfl⟩ := ends
    · exact ⟨0, [], rfl, rfl⟩
    · exact ⟨47, more ++ [0], rfl, rfl⟩
  obtain ⟨byte, after, tail, stops⟩ := tail
  have shape : slashes ++ (first :: others ++ rest) ++ [0] = slashes ++ (first :: others ++ byte :: after) := by
    rw [List.append_assoc, List.append_assoc, tail]
  rw [shape]
  refine ⟨?_, ?_, ⟨first, by simp, fun zero => clean (by simp [zero])⟩, ?_⟩
  · cases slashes with
    | nil => exact ⟨first, by simp, fun zero => clean (by simp [zero])⟩
    | cons slash slashes => exact ⟨slash, by simp, fun zero => clean (by simp [zero])⟩
  · rw [List.length_append]
    exact scan_run (by simpa using only) (by simpa using other)
  · rw [← List.append_assoc before, @List.length_append _ (before ++ slashes)]
    apply scan_run _ stops
    intro byte inside
    have zero : byte ≠ 0 := by
      rintro rfl
      exact clean (by simp only [List.mem_append]; tauto)
    have slash := ne_of_mem_of_not_mem inside whole
    simp [zero, slash]

/-- Where there is no segment left, the slashes end at the NUL. -/
theorem scan_slashes (only : ∀ byte ∈ slashes, byte = 47) :
    scan (· = 47) (before ++ (slashes ++ [0])) before.length = some (before ++ slashes).length ∧
      (before ++ (slashes ++ [0]))[(before ++ slashes).length]? = some 0 := by
  constructor
  · rw [List.length_append]
    exact scan_run (by simpa using only) rfl
  · rw [← List.append_assoc]
    exact byte_behind (before ++ slashes) [] 0

end Scan

/-- Every segment but the last one has a slash behind it. -/
theorem render_concat (segments : List (List UInt8)) (last : List UInt8) :
    render (segments ++ [last]) = 47 :: (segments.flatMap (· ++ [47]) ++ last) := by
  rw [render]
  congr 1
  induction segments with
  | nil => simp
  | cons first segments ih =>
    rw [List.flatMap_cons, List.append_assoc, List.append_assoc, ← ih]
    cases segments <;> simp

/-- One more segment, with a slash in front unless that is the root. -/
theorem render_push (segments : List (List UInt8)) (last : List UInt8) :
    render (segments ++ [last]) = render segments ++ ((if segments = [] then [] else [47]) ++ last) := by
  obtain rfl | ⟨before, name, rfl⟩ := List.eq_nil_or_concat' segments
  · simp [render]
  · rw [render_concat, render_concat, List.flatMap_append]
    simp

section Names

theorem climb_name (name : Name segment) : climb kept segment = kept ++ [segment] := by
  rw [climb, if_neg name.here, if_neg name.up]

theorem climb_names (names : ∀ name ∈ kept, Name name) (nonempty : segment ≠ []) (whole : (47 : UInt8) ∉ segment) :
    ∀ name ∈ climb kept segment, Name name := by
  unfold climb
  split
  next => exact names
  next here =>
    split
    next => exact fun name inside => names name (List.mem_of_mem_dropLast inside)
    next up =>
      intro name inside
      obtain inside | inside := List.mem_append.mp inside
      · exact names name inside
      · rw [List.mem_singleton.mp inside]
        exact ⟨nonempty, whole, here, up⟩

theorem foldl_names {segments : List (List UInt8)} (names : ∀ name ∈ kept, Name name)
    (fit : ∀ segment ∈ segments, segment ≠ [] ∧ (47 : UInt8) ∉ segment) :
    ∀ name ∈ segments.foldl climb kept, Name name := by
  induction segments generalizing kept with
  | nil => exact names
  | cons segment segments ih =>
    rw [List.forall_mem_cons] at fit
    exact ih (climb_names names fit.1.1 fit.1.2) fit.2

theorem resolve_names (path : List UInt8) : ∀ name ∈ resolve path, Name name := by
  apply foldl_names (fun name inside => absurd inside List.not_mem_nil)
  intro segment inside
  exact ⟨by simpa using (List.mem_filter.mp inside).2, mem_strtok inside⟩

theorem climb_all (kept : List (List UInt8)) (all : ∀ name ∈ names, Name name) :
    names.foldl climb kept = kept ++ names := by
  induction names generalizing kept with
  | nil => exact (List.append_nil kept).symm
  | cons name names ih =>
    rw [List.forall_mem_cons] at all
    rw [List.foldl_cons, climb_name all.1, ih _ all.2, List.append_assoc]
    rfl

theorem mem_intercalate {texts : List (List UInt8)} {text : List UInt8} {byte : UInt8} (among : text ∈ texts)
    (inside : byte ∈ text) : byte ∈ [47].intercalate texts := by
  induction texts with
  | nil => cases among
  | cons first texts ih =>
    cases texts with
    | nil =>
      rw [List.mem_singleton.mp among] at inside
      rwa [List.intercalate_singleton]
    | cons second texts =>
      rw [List.intercalate_cons_cons, List.mem_append]
      obtain rfl | later := List.mem_cons.mp among
      · exact .inl (List.mem_append_left _ inside)
      · exact .inr (ih later)

/-- A segment that is kept was kept before, or it is one of those that were added. -/
theorem mem_foldl_climb {segments : List (List UInt8)} {name : List UInt8} (found : name ∈ segments.foldl climb kept) :
    name ∈ kept ∨ name ∈ segments := by
  induction segments generalizing kept with
  | nil => exact .inl found
  | cons segment segments ih =>
    obtain here | later := ih found
    · unfold climb at here
      split at here
      · exact .inl here
      · split at here
        · exact .inl (List.mem_of_mem_dropLast here)
        · rw [List.mem_append, List.mem_singleton] at here
          rw [List.mem_cons]
          tauto
    · exact .inr (List.mem_cons_of_mem _ later)

/-- No byte of a segment that is kept is new. -/
theorem resolve_bytes {byte : UInt8} {name : List UInt8} (kept : name ∈ resolve path) (inside : byte ∈ name) :
    byte ∈ path := by
  have piece := (mem_foldl_climb kept).resolve_left List.not_mem_nil
  have joined := mem_intercalate (List.mem_filter.mp piece).1 inside
  rwa [List.intercalate_splitOn] at joined

theorem lexical_bytes {byte : UInt8} (inside : byte ∈ lexical path) : byte = 47 ∨ byte ∈ path := by
  obtain slash | inside := List.mem_cons.mp inside
  · exact .inl slash
  · obtain slash | ⟨name, kept, inside⟩ := mem_join inside
    · exact .inl slash
    · exact .inr (resolve_bytes kept inside)

theorem lexical_clean (clean : (0 : UInt8) ∉ path) : (0 : UInt8) ∉ lexical path := by
  intro inside
  obtain slash | zero := lexical_bytes inside
  · cases slash
  · exact clean zero

theorem resolve_render (all : ∀ name ∈ names, Name name) : resolve (render names) = names := by
  rw [resolve, render, strtok_slash, strtok_join (fun name inside => (all name inside).whole)
    (fun name inside => (all name inside).nonempty), climb_all [] all]
  rfl

theorem lexical_render (all : ∀ name ∈ names, Name name) : lexical (render names) = render names := by
  rw [lexical, resolve_render all]

theorem lexical_lexical (path : List UInt8) : lexical (lexical path) = lexical path :=
  lexical_render (resolve_names path)

/-- From the root on, a path is its own normal form exactly if it consists of names. -/
theorem lexical_iff (rest : List UInt8) :
    lexical (47 :: rest) = 47 :: rest ↔ rest = [] ∨ ∀ piece ∈ rest.splitOn 47, Name piece := by
  constructor
  · intro same
    have joined : [47].intercalate (resolve (47 :: rest)) = rest := (List.cons.inj same).2
    by_cases root : resolve (47 :: rest) = []
    · rw [root] at joined
      exact .inl joined.symm
    · right
      rw [← joined, List.splitOn_intercalate _ (fun name inside => (resolve_names _ name inside).whole) root]
      exact resolve_names _
  · intro either
    obtain rfl | all := either
    · rfl
    · have again := lexical_render all
      rwa [render, List.intercalate_splitOn] at again

end Names

section Length

/-- With the slash before each of them. -/
def weight : List (List UInt8) → Nat
  | [] => 0
  | segment :: segments => segment.length + 1 + weight segments

@[simp] theorem weight_nil : weight [] = 0 := rfl

@[simp] theorem weight_cons (segment : List UInt8) (segments : List (List UInt8)) :
    weight (segment :: segments) = segment.length + 1 + weight segments := rfl

@[simp] theorem weight_append (first second : List (List UInt8)) :
    weight (first ++ second) = weight first + weight second := by
  induction first with
  | nil => simp
  | cons segment segments ih => simp [ih, Nat.add_assoc]

theorem weight_dropLast (segments : List (List UInt8)) : weight segments.dropLast ≤ weight segments := by
  cases last : segments.getLast? with
  | none =>
    rw [List.getLast?_eq_none_iff.mp last]
    exact Nat.le_refl _
  | some segment =>
    obtain ⟨before, rfl⟩ := List.getLast?_eq_some_iff.mp last
    simp

theorem weight_climb (kept : List (List UInt8)) (segment : List UInt8) :
    weight (climb kept segment) ≤ weight kept + weight [segment] := by
  have less := weight_dropLast kept
  unfold climb
  split
  · omega
  · split
    · omega
    · simp

theorem length_climb (kept : List (List UInt8)) (segment : List UInt8) :
    (climb kept segment).length ≤ kept.length + 1 := by
  unfold climb
  split
  · omega
  · split <;> simp
    omega

theorem weight_foldl (segments kept : List (List UInt8)) :
    weight (segments.foldl climb kept) ≤ weight kept + weight segments := by
  induction segments generalizing kept with
  | nil => exact Nat.le_refl _
  | cons segment segments ih =>
    have first := weight_climb kept segment
    have later := ih (climb kept segment)
    simp only [List.foldl_cons, weight_cons, weight_nil] at *
    omega

theorem weight_filter (segments : List (List UInt8)) (kept : List UInt8 → Bool) :
    weight (segments.filter kept) ≤ weight segments := by
  induction segments with
  | nil => exact Nat.le_refl _
  | cons segment segments ih =>
    rw [List.filter_cons, weight_cons]
    split
    · rw [weight_cons]
      omega
    · omega

theorem length_intercalate (segments : List (List UInt8)) :
    ([47].intercalate segments).length = weight segments - 1 := by
  induction segments with
  | nil => rfl
  | cons first segments ih =>
    cases segments with
    | nil => simp
    | cons second segments =>
      simp only [List.intercalate_cons_cons, List.length_append, List.length_singleton, ih, weight_cons]
      omega

theorem length_render (segments : List (List UInt8)) : (render segments).length = weight segments - 1 + 1 := by
  rw [render, List.length_cons, length_intercalate]

theorem length_flatMap (segments : List (List UInt8)) :
    (segments.flatMap (· ++ [47])).length = weight segments := by
  induction segments with
  | nil => rfl
  | cons segment segments ih =>
    simp [ih]
    omega

theorem weight_strtok (path : List UInt8) : weight (strtok path 47) ≤ path.length + 1 := by
  have pieces : weight (strtok path 47) ≤ weight (path.splitOn 47) := weight_filter ..
  have joined := length_intercalate (path.splitOn 47)
  rw [List.intercalate_splitOn] at joined
  omega

/-- A path from the root does not get longer. -/
theorem length_lexical (rest : List UInt8) : (lexical (47 :: rest)).length ≤ rest.length + 1 := by
  have kept := weight_foldl (strtok rest 47) []
  have all := weight_strtok rest
  rw [lexical, resolve, strtok_slash, length_render]
  rw [weight_nil] at kept
  omega

end Length
end Paths
