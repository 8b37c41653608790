import Mathlib.Data.List.Nodup
import Mathlib.Data.List.Perm.Basic

/-! Resources that are acquired and released by hand. Each gets a number that is never given
again, so a resource that is released twice, or not at all, shows in the list of releases. -/

namespace Ledger

variable {α β ε : Type}

/-- A resource and its number. -/
structure Owned (α : Type) where
  value : α
  serial : Nat

/-- How many resources there have been, and the numbers of those released, in order. -/
structure Book where
  next : Nat := 0
  released : List Nat := []

def Book.release (book : Book) (serials : List Nat) : Book := { book with released := book.released ++ serials }

/-- A program that acquires resources. One that fails keeps what it has acquired. -/
abbrev Acquiring (ε α : Type) := ExceptT ε (StateM Book) α

def acquire (value : α) : Acquiring ε (Owned α) :=
  fun book => (.ok { value, serial := book.next }, { book with next := book.next + 1 })

theorem bind_apply (first : Acquiring ε α) (next : α → Acquiring ε β) (book : Book) :
    (first >>= next) book =
      match first book with
      | (.ok value, book) => next value book
      | (.error error, book) => (.error error, book) := by
  simp only [bind, ExceptT.bind, ExceptT.mk, StateT.bind, ExceptT.bindCont]
  cases first book with
  | mk result book => cases result <;> rfl

theorem bind_ok {first : Acquiring ε α} {next : α → Acquiring ε β} {book later : Book} {result : β}
    (ran : (first >>= next) book = (.ok result, later)) :
    ∃ value middle, first book = (.ok value, middle) ∧ next value middle = (.ok result, later) := by
  rw [bind_apply] at ran
  cases began : first book with
  | mk outcome middle =>
    rw [began] at ran
    cases outcome with
    | error error => cases ran
    | ok value => exact ⟨value, middle, rfl, ran⟩

theorem bind_of_ok {first : Acquiring ε α} {next : α → Acquiring ε β} {book middle : Book} {value : α}
    (ran : first book = (.ok value, middle)) : (first >>= next) book = next value middle := by
  rw [bind_apply, ran]

/-- The resources that are held and those that have been released are all different. -/
structure Balanced (held : List Nat) (book : Book) : Prop where
  distinct : (held ++ book.released).Nodup
  known : ∀ serial ∈ held ++ book.released, serial < book.next

namespace Balanced
variable {held other : List Nat} {book : Book}

theorem start : Balanced [] {} where
  distinct := List.nodup_nil
  known := by simp

theorem perm (balanced : Balanced held book) (same : held.Perm other) : Balanced other book where
  distinct := (same.append_right _).nodup_iff.mp balanced.distinct
  known := fun serial inside => balanced.known serial ((same.append_right _).mem_iff.mpr inside)

/-- Resources may be lost. -/
theorem lose (balanced : Balanced held book) (fewer : other.Sublist held) : Balanced other book where
  distinct := balanced.distinct.sublist (fewer.append_right _)
  known := fun serial inside => balanced.known serial ((fewer.append_right _).subset inside)

theorem acquire (balanced : Balanced held book) :
    Balanced (book.next :: held) { book with next := book.next + 1 } where
  distinct := by
    rw [List.cons_append, List.nodup_cons]
    refine ⟨?_, balanced.distinct⟩
    intro inside
    exact absurd (balanced.known _ inside) (Nat.lt_irrefl _)
  known := by
    intro serial inside
    rw [List.cons_append, List.mem_cons] at inside
    rcases inside with rfl | inside
    · exact Nat.lt_succ_self _
    · exact Nat.lt_succ_of_lt (balanced.known serial inside)

theorem release {freed : List Nat} (balanced : Balanced (freed ++ held) book) : Balanced held (book.release freed) := by
  have same : (freed ++ held ++ book.released).Perm (held ++ (book.released ++ freed)) := by
    rw [List.append_assoc, ← List.append_assoc held]
    exact List.perm_append_comm
  constructor
  · exact same.nodup_iff.mp balanced.distinct
  · intro serial inside
    exact balanced.known serial (same.mem_iff.mpr inside)

theorem count_held (balanced : Balanced held book) {serial : Nat} (inside : serial ∈ held) :
    book.released.count serial = 0 := by
  apply List.count_eq_zero.mpr
  intro released
  exact (List.nodup_append.mp balanced.distinct).2.2 serial inside serial released rfl

theorem count_released (balanced : Balanced held book) {serial : Nat} (inside : serial ∈ book.released) :
    book.released.count serial = 1 :=
  List.count_eq_one_of_mem (List.nodup_append.mp balanced.distinct).2.1 inside

end Balanced

/-- Every resource there has been is held, or has been released, and that once. -/
def Accounted (held : List Nat) (book : Book) : Prop := (held ++ book.released).Perm (List.range book.next)

namespace Accounted
variable {held other : List Nat} {book : Book}

theorem start : Accounted [] {} := List.Perm.refl _

theorem perm (accounted : Accounted held book) (same : held.Perm other) : Accounted other book :=
  (same.symm.append_right _).trans accounted

theorem acquire (accounted : Accounted held book) :
    Accounted (book.next :: held) { book with next := book.next + 1 } := by
  rw [Accounted, List.range_succ, List.cons_append]
  exact (accounted.cons book.next).trans (List.perm_append_singleton book.next _).symm

theorem release {freed : List Nat} (accounted : Accounted (freed ++ held) book) :
    Accounted held (book.release freed) := by
  have same : (held ++ (book.released ++ freed)).Perm (freed ++ held ++ book.released) := by
    rw [List.append_assoc, ← List.append_assoc held]
    exact List.perm_append_comm
  exact same.trans accounted

/-- One that is neither held nor released is missed. -/
theorem total (accounted : Accounted held book) : held.length + book.released.length = book.next := by
  have lengths := accounted.length_eq
  rwa [List.length_append, List.length_range] at lengths

theorem distinct (accounted : Accounted held book) : (held ++ book.released).Nodup :=
  accounted.nodup_iff.mpr List.nodup_range

theorem mem_iff (accounted : Accounted held book) {serial : Nat} :
    serial ∈ held ++ book.released ↔ serial < book.next :=
  (List.Perm.mem_iff accounted).trans List.mem_range

/-- If some of what is held is lost and something else is released that is not lost, then all
has been released once exactly when nothing is lost and nothing else is released. -/
theorem freed_iff {lost twice freed : List Nat} (accounted : Accounted (held ++ lost) book)
    (known : ∀ serial ∈ twice, serial < book.next ∧ serial ∉ lost) (same : freed.Perm (held ++ twice)) :
    Accounted [] (book.release freed) ↔ lost = [] ∧ twice = [] := by
  have all : Accounted [] (book.release freed) ↔
      (book.released ++ (held ++ twice)).Perm (List.range book.next) :=
    (same.append_left book.released).congr_left _
  rw [all]
  constructor
  · intro released
    have once : twice = [] := by
      apply List.eq_nil_iff_forall_not_mem.mpr
      intro serial inside
      obtain ⟨before, kept⟩ := known serial inside
      have earlier : serial ∈ book.released ++ held := by
        have somewhere := accounted.mem_iff.mpr before
        simp only [List.mem_append] at somewhere ⊢
        tauto
      rw [← List.append_assoc] at released
      have distinct := released.nodup_iff.mpr List.nodup_range
      exact (List.nodup_append.mp distinct).2.2 serial earlier serial inside rfl
    have total := accounted.total
    have length := released.length_eq
    simp only [once, List.length_append, List.length_nil, List.length_range] at total length
    exact ⟨List.length_eq_zero_iff.mp (by omega), once⟩
  · rintro ⟨rfl, rfl⟩
    rw [List.append_nil]
    rw [List.append_nil] at accounted
    exact List.perm_append_comm.trans accounted

end Accounted

/-- A program that starts while `held` is held releases nothing. It comes to a result with which
`after` is held, or it fails, and then `left` is still held. -/
def Keeps (left held : List Nat) (program : Acquiring ε α) (after : α → List Nat) : Prop :=
  ∀ book, Balanced held book →
    match program book with
    | (.ok value, later) => later.released = book.released ∧ Balanced (after value) later
    | (.error _, later) => later.released = book.released ∧ Balanced left later

namespace Keeps
variable {left held : List Nat} {after : α → List Nat}

theorem pure {value : α} (same : held.Perm (after value)) : Keeps left held (Pure.pure value : Acquiring ε α) after :=
  fun _ balanced => ⟨rfl, balanced.perm same⟩

theorem throw {error : ε} (fewer : left.Sublist held) : Keeps left held (throw error : Acquiring ε α) after :=
  fun _ balanced => ⟨rfl, balanced.lose fewer⟩

theorem acquire (value : α) : Keeps left held (Ledger.acquire value : Acquiring ε (Owned α)) (·.serial :: held) :=
  fun _ balanced => ⟨rfl, balanced.acquire⟩

theorem bind {first : Acquiring ε α} {next : α → Acquiring ε β} {later : β → List Nat}
    (start : Keeps left held first after) (rest : ∀ value, Keeps left (after value) (next value) later) :
    Keeps left held (first >>= next) later := by
  intro book balanced
  have begins := start book balanced
  rw [bind_apply]
  cases ran : first book with
  | mk result middle =>
    rw [ran] at begins
    cases result with
    | error error => exact begins
    | ok value =>
      have ends := rest value middle begins.2
      dsimp only
      cases ended : next value middle with
      | mk result final => cases result <;> simpa only [ended, ← begins.1] using ends

theorem weaken {other : α → List Nat} {program : Acquiring ε α} (keeps : Keeps left held program after)
    (same : ∀ value, (after value).Perm (other value)) : Keeps left held program other := by
  intro book balanced
  have kept := keeps book balanced
  cases ran : program book with
  | mk result later =>
    rw [ran] at kept
    cases result with
    | error error => exact kept
    | ok value => exact ⟨kept.1, kept.2.perm (same value)⟩

/-- A loop over items, each of which leaves something held. -/
theorem mapM {σ : Type} {body : σ → Acquiring ε α} {gained : α → List Nat}
    (each : ∀ item held, left.Sublist held → Keeps left held (body item) fun value => gained value ++ held)
    {items : List σ} (fewer : left.Sublist held) :
    Keeps left held (items.mapM body) fun values => values.flatMap gained ++ held := by
  induction items generalizing held with
  | nil => exact .pure (List.Perm.refl _)
  | cons item items ih =>
    rw [List.mapM_cons]
    apply (each item held fewer).bind
    intro value
    apply (ih (fewer.trans (List.sublist_append_right ..))).bind
    intro values
    apply Keeps.pure
    rw [List.flatMap_cons, ← List.append_assoc]
    exact List.perm_append_comm.append_right held

end Keeps

/-- The result, seen without its resources, is what a function without resources gives, and
the program fails when that function does. -/
def Means (program : Acquiring ε α) (view : α → β) (meaning : Option β) : Prop :=
  ∀ book,
    match program book with
    | (.ok value, _) => meaning = some (view value)
    | (.error _, _) => meaning = none

namespace Means
variable {γ σ : Type} {view : α → β}

theorem pure (value : α) (view : α → β) : Means (Pure.pure value : Acquiring ε α) view (some (view value)) :=
  fun _ => rfl

theorem throw (error : ε) (view : α → β) : Means (throw error : Acquiring ε α) view none := fun _ => rfl

theorem acquire (value : α) : Means (Ledger.acquire value : Acquiring ε (Owned α)) (·.value) (some value) :=
  fun _ => rfl

theorem bind {first : Acquiring ε α} {next : α → Acquiring ε σ} {last : σ → γ} {meaning : Option β}
    {rest : β → Option γ} (start : Means first view meaning)
    (each : ∀ value, meaning = some (view value) → Means (next value) last (rest (view value))) :
    Means (first >>= next) last (meaning.bind rest) := by
  intro book
  have begins := start book
  rw [bind_apply]
  cases ran : first book with
  | mk result middle =>
    rw [ran] at begins
    cases result with
    | error error =>
      have begins : meaning = none := begins
      rw [begins]
      rfl
    | ok value =>
      have begins : meaning = some (view value) := begins
      rw [begins]
      exact each value begins middle

theorem map {first : Acquiring ε α} {meaning : Option β} (start : Means first view meaning) :
    Means (some <$> first) (Option.map view) (meaning.map some) := by
  rw [map_eq_pure_bind, Option.map_eq_bind]
  exact start.bind fun value _ => .pure (some value) (Option.map view)

/-- A first part that always succeeds. -/
theorem after {first : Acquiring ε α} {next : α → Acquiring ε σ} {last : σ → γ} {here : β} {rest : Option γ}
    (start : Means first view (some here)) (each : ∀ value, view value = here → Means (next value) last rest) :
    Means (first >>= next) last rest := by
  have whole : Means (first >>= next) last ((some here).bind fun _ => rest) := by
    apply start.bind
    intro value same
    exact each value (Option.some.inj same).symm
  exact whole

theorem mapM {body : σ → Acquiring ε α} {spec : σ → Option β} (each : ∀ item, Means (body item) view (spec item))
    (items : List σ) : Means (items.mapM body) (List.map view) (items.mapM spec) := by
  induction items with
  | nil => exact .pure [] _
  | cons item items ih =>
    rw [List.mapM_cons, List.mapM_cons]
    apply (each item).bind
    intro value _
    apply ih.bind
    intro values _
    exact .pure (value :: values) _

end Means

/-- What a value of this kind holds. -/
class Holding (α : Type) where
  serials : α → List Nat

export Holding (serials)

instance : Holding (Owned α) where
  serials owned := [owned.serial]

instance [Holding α] : Holding (Option α) where
  serials value := value.toList.flatMap serials

instance [Holding α] : Holding (List α) where
  serials values := values.flatMap serials

instance [Holding α] [Holding β] : Holding (α × β) where
  serials pair := serials pair.1 ++ serials pair.2

section Holds
variable [Holding α] [Holding β]

@[simp] theorem serials_none : serials (none : Option α) = [] := rfl

@[simp] theorem serials_some (value : α) : serials (some value) = serials value := by
  simp [serials]

@[simp] theorem serials_nil : serials ([] : List α) = [] := rfl

@[simp] theorem serials_cons (value : α) (values : List α) :
    serials (value :: values) = serials value ++ serials values := rfl

@[simp] theorem serials_append (first last : List α) : serials (first ++ last) = serials first ++ serials last :=
  List.flatMap_append

@[simp] theorem serials_pair (pair : α × β) : serials pair = serials pair.1 ++ serials pair.2 := rfl

end Holds

def free [Holding α] (value : α) : Acquiring ε Unit := fun book => (.ok (), book.release (serials value))

/-- A part that neither acquires nor releases anything. -/
def attempt (result : Except ε α) : Acquiring ε α := fun book => (result, book)

/-- A program that starts while `held` is held loses nothing: if it comes to a result, `after`
is held and everything else has been released once. -/
def Settles (held : List Nat) (program : Acquiring ε α) (after : α → List Nat) : Prop :=
  ∀ book, Accounted held book → ∀ value later, program book = (.ok value, later) →
    book.next ≤ later.next ∧ Accounted (after value) later

namespace Settles
variable {held : List Nat} {after : α → List Nat}

theorem pure {value : α} (same : held.Perm (after value)) : Settles held (Pure.pure value : Acquiring ε α) after := by
  intro book accounted _ _ ran
  cases ran
  exact ⟨Nat.le_refl _, accounted.perm same⟩

theorem attempt {result : Except ε α} (same : ∀ value, result = .ok value → held.Perm (after value)) :
    Settles held (Ledger.attempt result) after := by
  intro book accounted value _ ran
  cases ran
  exact ⟨Nat.le_refl _, accounted.perm (same value rfl)⟩

theorem throw {error : ε} : Settles held (throw error : Acquiring ε α) after := by
  intro book accounted value later ran
  cases ran

theorem acquire (value : α) : Settles held (Ledger.acquire value : Acquiring ε (Owned α)) (serials · ++ held) := by
  intro book accounted _ _ ran
  cases ran
  exact ⟨Nat.le_succ _, accounted.acquire⟩

theorem free [Holding α] {value : α} {rest : List Nat} (same : held.Perm (serials value ++ rest)) :
    Settles held (Ledger.free value : Acquiring ε Unit) fun _ => rest := by
  intro book accounted _ _ ran
  cases ran
  exact ⟨Nat.le_refl _, (accounted.perm same).release⟩

theorem bind {first : Acquiring ε α} {next : α → Acquiring ε β} {later : β → List Nat}
    (start : Settles held first after) (rest : ∀ value, Settles (after value) (next value) later) :
    Settles held (first >>= next) later := by
  intro book accounted value final ran
  obtain ⟨between, middle, began, ended⟩ := bind_ok ran
  obtain ⟨grew, kept⟩ := start book accounted between middle began
  obtain ⟨grows, keeps⟩ := rest between middle kept value final ended
  exact ⟨Nat.le_trans grew grows, keeps⟩

/-- What is given up first leaves the rest to the program behind it. -/
theorem freed [Holding β] {value : β} {rest : List Nat} {next : Acquiring ε α}
    (same : held.Perm (serials value ++ rest)) (settles : Settles rest next after) :
    Settles held (Ledger.free value >>= fun _ => next) after :=
  (free same).bind fun _ => settles

theorem perm {other : List Nat} {program : Acquiring ε α} (settles : Settles held program after)
    (same : other.Perm held) : Settles other program after :=
  fun book accounted => settles book (accounted.perm same)

theorem weaken {other : α → List Nat} {program : Acquiring ε α} (settles : Settles held program after)
    (same : ∀ value, (after value).Perm (other value)) : Settles held program other := by
  intro book accounted value later ran
  obtain ⟨grows, keeps⟩ := settles book accounted value later ran
  exact ⟨grows, keeps.perm (same value)⟩

/-- What the program leaves is put behind what it does not care about. -/
theorem turn {freed : List Nat} {program : Acquiring ε α} {left : α → List Nat}
    (settles : Settles (freed ++ held) program fun value => left value ++ held) :
    Settles (freed ++ held) program fun value => held ++ left value :=
  settles.weaken fun _ => List.perm_append_comm

theorem map {f : α → β} {program : Acquiring ε α} {later : β → List Nat}
    (settles : Settles held program fun value => later (f value)) : Settles held (f <$> program) later := by
  rw [map_eq_pure_bind]
  exact settles.bind fun value => .pure (List.Perm.refl _)

end Settles

/-- The program gains what its result holds. -/
def Gains [Holding α] (program : Acquiring ε α) : Prop := ∀ held, Settles held program (serials · ++ held)

/-- A loop that gives up one state for the next. -/
theorem Settles.foldlM [Holding α] {σ : Type} {body : α → σ → Acquiring ε α} {held : List Nat}
    (each : ∀ state item, Settles (serials state ++ held) (body state item) (serials · ++ held)) (items : List σ)
    (state : α) : Settles (serials state ++ held) (items.foldlM body state) (serials · ++ held) := by
  induction items generalizing state with
  | nil => exact .pure (List.Perm.refl _)
  | cons item items ih =>
    rw [List.foldlM_cons]
    exact (each state item).bind ih

theorem Gains.mapM [Holding α] {σ : Type} {body : σ → Acquiring ε α} (each : ∀ item, Gains (body item))
    (items : List σ) : Gains (items.mapM body) := by
  induction items with
  | nil => exact fun held => .pure (List.Perm.refl _)
  | cons item items ih =>
    intro held
    rw [List.mapM_cons]
    apply (each item held).bind
    intro value
    apply (ih _).bind
    intro values
    apply Settles.pure
    rw [serials_cons, ← List.append_assoc]
    exact List.perm_append_comm.append_right held

/-- The same program under other errors. -/
def failing {δ : Type} (error : ε → δ) (program : Acquiring ε α) : Acquiring δ α :=
  fun book => ((program book).1.mapError error, (program book).2)

theorem Settles.failing {δ : Type} {error : ε → δ} {held : List Nat} {program : Acquiring ε α} {after : α → List Nat}
    (settles : Settles held program after) : Settles held (failing error program) after := by
  intro book accounted value later ran
  apply settles book accounted value later
  unfold Ledger.failing at ran
  cases came : program book with
  | mk first middle =>
    rw [came] at ran
    cases first with
    | error error => cases ran
    | ok result =>
      cases ran
      rfl

/-- The assertion is true of every result of the program. -/
def Yields (program : Acquiring ε α) (holds : α → Prop) : Prop :=
  ∀ book value later, program book = (.ok value, later) → holds value

namespace Yields
variable {holds : α → Prop} {after : β → Prop}

theorem pure {value : α} (valid : holds value) : Yields (Pure.pure value : Acquiring ε α) holds := by
  intro _ _ _ ran
  cases ran
  exact valid

theorem throw {error : ε} : Yields (throw error : Acquiring ε α) holds := by
  intro _ _ _ ran
  cases ran

theorem bind {first : Acquiring ε α} {next : α → Acquiring ε β} (start : Yields first holds)
    (rest : ∀ value, holds value → Yields (next value) after) : Yields (first >>= next) after := by
  intro book value later ran
  obtain ⟨between, middle, began, ended⟩ := bind_ok ran
  exact rest between (start book between middle began) middle value later ended

/-- Only what is done last matters. -/
theorem last {first : Acquiring ε α} {next : α → Acquiring ε β} (rest : ∀ value, Yields (next value) after) :
    Yields (first >>= next) after := by
  have start : Yields first fun _ => True := fun _ _ _ _ => trivial
  exact start.bind fun value _ => rest value

end Yields

/-- Seen without its resources, the program ends as a function without resources does. -/
def Shows (program : Acquiring ε α) (view : α → β) (spec : Except ε β) : Prop :=
  ∀ book, (program book).1.map view = spec

namespace Shows
variable {γ δ σ : Type} {view : α → β}

theorem pure (value : α) (view : α → β) : Shows (Pure.pure value : Acquiring ε α) view (.ok (view value)) := fun _ => rfl

theorem throw (error : ε) (view : α → β) : Shows (throw error : Acquiring ε α) view (.error error) := fun _ => rfl

theorem attempt (result : Except ε α) : Shows (Ledger.attempt result) id result := by
  intro book
  cases result <;> rfl

theorem acquire (value : α) : Shows (Ledger.acquire value : Acquiring ε (Owned α)) (·.value) (.ok value) :=
  fun _ => rfl

theorem failing {error : ε → δ} {program : Acquiring ε α} {spec : Except ε β} (shows : Shows program view spec) :
    Shows (Ledger.failing error program) view (spec.mapError error) := by
  intro book
  rw [← shows book, Ledger.failing]
  cases (program book).1 <;> rfl

theorem bind_known {first : Acquiring ε α} {next : α → Acquiring ε σ} {last : σ → γ} {spec : Except ε β}
    {rest : β → Except ε γ} (start : Shows first view spec)
    (each : ∀ value, spec = .ok (view value) → Shows (next value) last (rest (view value))) :
    Shows (first >>= next) last (spec >>= rest) := by
  intro book
  have begins := start book
  rw [bind_apply]
  cases ran : first book with
  | mk result middle =>
    rw [ran] at begins
    subst begins
    cases result with
    | error error => rfl
    | ok value => exact each value rfl middle

theorem bind {first : Acquiring ε α} {next : α → Acquiring ε σ} {last : σ → γ} {spec : Except ε β}
    {rest : β → Except ε γ} (start : Shows first view spec)
    (each : ∀ value, Shows (next value) last (rest (view value))) :
    Shows (first >>= next) last (spec >>= rest) :=
  start.bind_known fun value _ => each value

/-- What shows can be looked at in another way. -/
theorem through {program : Acquiring ε α} {spec : Except ε β} (shows : Shows program view spec) (look : β → γ) :
    Shows program (fun value => look (view value)) (spec.map look) := by
  intro book
  rw [← shows book]
  cases (program book).1 <;> rfl

/-- A first part that always succeeds. -/
theorem after {first : Acquiring ε α} {next : α → Acquiring ε σ} {last : σ → γ} {here : β} {rest : Except ε γ}
    (start : Shows first view (.ok here)) (each : ∀ value, view value = here → Shows (next value) last rest) :
    Shows (first >>= next) last rest := by
  have both : Shows (first >>= next) last ((.ok here : Except ε β) >>= fun _ => rest) :=
    start.bind_known fun value known => each value (Except.ok.inj known).symm
  exact both

theorem yields {program : Acquiring ε α} {spec : Except ε β} (shows : Shows program view spec) :
    Yields program fun value => spec = .ok (view value) := by
  intro book value later ran
  rw [← shows book, ran]
  rfl

theorem stops {first : Acquiring ε α} {next : α → Acquiring ε σ} {last : σ → γ} {error : ε}
    (start : Shows first view (.error error)) : Shows (first >>= next) last (.error error) := by
  have both : Shows (first >>= next) last ((.error error : Except ε β) >>= fun _ => .error error) :=
    start.bind_known fun _ known => nomatch known
  exact both

theorem freed [Holding α] (value : α) : Shows (Ledger.free value : Acquiring ε Unit) id (.ok ()) := fun _ => rfl

/-- Releasing does not show. -/
theorem free [Holding α] {value : α} {next : Unit → Acquiring ε σ} {last : σ → γ} {rest : Except ε γ}
    (each : Shows (next ()) last rest) : Shows (Ledger.free value >>= next) last rest :=
  fun _ => each _

theorem foldlM {body : α → σ → Acquiring ε α} {spec : β → σ → Except ε β}
    (each : ∀ state item, Shows (body state item) view (spec (view state) item)) (items : List σ) (state : α) :
    Shows (items.foldlM body state) view (items.foldlM spec (view state)) := by
  induction items generalizing state with
  | nil => exact .pure state view
  | cons item items ih =>
    rw [List.foldlM_cons, List.foldlM_cons]
    exact (each state item).bind ih

/-- What has been read is copied. -/
theorem copied {result : Except ε β} {copy : β → Acquiring ε α} (each : ∀ value, Shows (copy value) view (.ok value)) :
    Shows (Ledger.attempt result >>= copy) view result := by
  intro book
  rw [bind_apply]
  cases result with
  | error error => rfl
  | ok value => exact each value book

theorem mapM_ok {body : σ → Acquiring ε α} {value : σ → β} (each : ∀ item, Shows (body item) view (.ok (value item)))
    (items : List σ) : Shows (items.mapM body) (List.map view) (.ok (items.map value)) := by
  induction items with
  | nil => exact .pure [] _
  | cons item items ih =>
    rw [List.mapM_cons]
    apply (each item).after
    intro copy same
    apply ih.after
    intro copies others book
    rw [List.map_cons, ← same, ← others]
    rfl

theorem mapM_copied {copy : β → Acquiring ε α} (each : ∀ value, Shows (copy value) view (.ok value)) (values : List β) :
    Shows (values.mapM copy) (List.map view) (.ok values) := by
  have whole : Shows (values.mapM copy) (List.map view) (.ok (values.map id)) := mapM_ok each values
  rwa [List.map_id] at whole

end Shows
end Ledger
