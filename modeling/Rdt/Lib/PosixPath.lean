import Mathlib.Data.List.Basic

/-!
# Paths as in POSIX

A path is resolved name by name; there are no symbolic links.
-/

namespace Rdt.PosixPath

abbrev Component := List Char

def components (p : String) : List Component := p.toList.splitOn '/'

/-- The components that stay in a directory -/
def Stays (c : Component) : Prop := c = [] ∨ c = ['.']

instance (c : Component) : Decidable (Stays c) := inferInstanceAs (Decidable (_ ∨ _))

def parent : Component := ['.', '.']

/-- One component further, from a place given by the names that lead there from the root -/
def walk (place : List Component) (c : Component) : List Component :=
  if Stays c then place else if c = parent then place.dropLast else place ++ [c]

def isAbsolute (p : String) : Bool := p.startsWith "/"

/-- The place a path leads to -/
def resolve (cwd : List Component) (p : String) : List Component :=
  (components p).foldl walk (if isAbsolute p then [] else cwd)

/-- A path that ends so is that of a directory. -/
def EndsInDirectory (p : String) : Prop := ∀ c ∈ (components p).getLast?, Stays c ∨ c = parent

instance (p : String) : Decidable (EndsInDirectory p) :=
  inferInstanceAs (Decidable (∀ c ∈ (components p).getLast?, Stays c ∨ c = parent))

theorem isAbsolute_iff {p : String} : isAbsolute p = true ↔ ∃ cs, p.toList = '/' :: cs := by
  rw [isAbsolute, String.startsWith_string_iff]
  constructor
  · rintro ⟨cs, h⟩
    exact ⟨cs, h.symm⟩
  · rintro ⟨cs, h⟩
    exact ⟨cs, h.symm⟩

theorem resolve_dot (cwd : List Component) : resolve cwd "." = cwd := by
  have ha : isAbsolute "." = false := by
    rw [Bool.eq_false_iff]
    intro ha
    obtain ⟨cs, hcs⟩ := isAbsolute_iff.mp ha
    exact absurd (List.cons.inj hcs).1 (by decide)
  rw [resolve, ha]
  rfl

theorem components_slash (p q : String) :
    components (p ++ "/" ++ q) = components p ++ components q := by
  rw [components, String.toList_append, String.toList_append, List.append_assoc]
  exact List.splitOn_append_cons_self p.toList q.toList

theorem components_ne_nil (p : String) : components p ≠ [] := List.splitOn_ne_nil _ _

/-! ## Relative paths -/

/-- A relative path as steps up, then names down. -/
structure Route where
  up : Nat
  down : List Component
deriving DecidableEq, Repr

namespace Route

def start : Route := ⟨0, []⟩

def step (r : Route) (c : Component) : Route :=
  if Stays c then r
  else if c = parent then
    if r.down = [] then { r with up := r.up + 1 } else { r with down := r.down.dropLast }
  else { r with down := r.down ++ [c] }

/-- Where the route leads from a place; the root is its own parent. -/
def leads (r : Route) (place : List Component) : List Component :=
  place.take (place.length - r.up) ++ r.down

theorem leads_start (place : List Component) : start.leads place = place := by
  simp [leads, start]

theorem walk_leads (r : Route) (place : List Component) (c : Component) :
    walk (r.leads place) c = (r.step c).leads place := by
  unfold walk step
  by_cases hs : Stays c
  · rw [if_pos hs, if_pos hs]
  · rw [if_neg hs, if_neg hs]
    by_cases hp : c = parent
    · rw [if_pos hp, if_pos hp]
      by_cases hd : r.down = []
      · rw [if_pos hd, leads, leads, hd, List.append_nil, List.append_nil, List.dropLast_eq_take,
          List.take_take, List.length_take]
        congr 1
        dsimp only
        omega
      · rw [if_neg hd, leads, leads, List.dropLast_append_of_ne_nil hd]
    · rw [if_neg hp, if_neg hp, leads, leads, List.append_assoc]

theorem foldl_walk (cs : List Component) (r : Route) (place : List Component) :
    cs.foldl walk (r.leads place) = (cs.foldl step r).leads place := by
  induction cs generalizing r with
  | nil => rfl
  | cons c cs ih => rw [List.foldl_cons, List.foldl_cons, walk_leads, ih]

theorem mem_down_step {r : Route} {c d : Component} (h : d ∈ (r.step c).down) :
    d ∈ r.down ∨ d = c := by
  unfold step at h
  split at h
  · exact .inl h
  · split at h
    · split at h
      · exact .inl h
      · exact .inl (List.dropLast_subset _ h)
    · exact (List.mem_append.mp h).imp_right List.mem_singleton.mp

theorem mem_down_foldl {cs : List Component} {r : Route} {d : Component}
    (h : d ∈ (cs.foldl step r).down) : d ∈ r.down ∨ d ∈ cs := by
  induction cs generalizing r with
  | nil => exact .inl h
  | cons c cs ih =>
      rcases ih h with h | h
      · rcases mem_down_step h with h | rfl
        · exact .inl h
        · exact .inr List.mem_cons_self
      · exact .inr (List.mem_cons_of_mem c h)

end Route

/-- The route of a relative path -/
def route (p : String) : Route := (components p).foldl Route.step .start

theorem foldl_components (p : String) (place : List Component) :
    (components p).foldl walk place = (route p).leads place := by
  have h := Route.foldl_walk (components p) .start place
  rwa [Route.leads_start] at h

/-- From everywhere one name down. -/
theorem leads_of_route {p : String} {c : Component} (h : route p = ⟨0, [c]⟩)
    (place : List Component) : (components p).foldl walk place = place ++ [c] := by
  rw [foldl_components, h, Route.leads, Nat.sub_zero, List.take_length]

/-- A route that leads one name down from a place whose names it does not use is that step. -/
theorem Route.eq_of_leads {r : Route} {n : Nat} {x c : Component} (hn : 0 < n) (hx : x ∉ r.down)
    (h : r.leads (List.replicate n x) = List.replicate n x ++ [c]) : r = ⟨0, [c]⟩ := by
  have hup : r.up = 0 := by
    have hcount := congrArg (List.count x) h
    rw [leads, List.count_append, List.count_append, List.count_eq_zero_of_not_mem hx,
      List.take_replicate, List.length_replicate, List.count_replicate_self,
      List.count_replicate_self] at hcount
    omega
  have hdown : r.down = [c] := by
    rw [leads, hup, Nat.sub_zero, List.take_length] at h
    exact List.append_cancel_left h
  cases r
  cases hup
  cases hdown
  rfl

theorem length_foldl_walk_le (cs place : List Component) :
    (cs.foldl walk place).length ≤ place.length + cs.length := by
  induction cs generalizing place with
  | nil => exact Nat.le_add_right _ _
  | cons c cs ih =>
      have hstep : (walk place c).length ≤ place.length + 1 := by
        unfold walk
        split
        · exact Nat.le_succ _
        · split
          · rw [List.length_dropLast]
            omega
          · exact Nat.le_of_eq (by rw [List.length_append, List.length_singleton])
      have hrest := ih (walk place c)
      rw [List.foldl_cons, List.length_cons]
      omega

/-- A name that is none of the given ones -/
def freshName (cs : List Component) : Component := List.replicate (cs.flatten.length + 1) 'a'

theorem freshName_notMem (cs : List Component) : freshName cs ∉ cs := by
  intro h
  have hle := (List.sublist_flatten_of_mem h).length_le
  rw [freshName, List.length_replicate] at hle
  exact absurd hle (Nat.not_succ_le_self _)

end Rdt.PosixPath
