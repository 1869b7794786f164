import Rdt.Lib.PosixPath
import Rdt.Common.FileHandler

/-!
# The places a file name leads to

Where the paths lie that the server makes of the name a client sent.
-/

namespace Rdt.Server

open PosixPath FileHandler

/-- `get_filesize`, of a regular file -/
def getFilesize (h : FileHandler) (disk : Disk) (filepath : String) (isPathComplete : Bool) :
    Option Nat :=
  (h.lookup disk (h.getFilepath filepath isPathComplete)).map List.length

/-- The operating system knows no file under the path of a directory, nor under one with a null
character; a file is known by a path that leads to it, and nothing is linked. -/
structure IsPosix (cwd : List Component) (h : FileHandler) : Prop where
  canOpen : ∀ p, EndsInDirectory p → h.canOpen p = false
  node : ∀ p k, h.node p = some k →
    hasNull p = false ∧ ¬EndsInDirectory p ∧ resolve cwd k = resolve cwd p

/-- The paths that are opened, measured or removed for a name -/
inductive Touches (h : FileHandler) (disk : Disk) (filename : String) : String → Prop
  | opensForWriting {file : File} {disk' : Disk}
      (ho : h.openFileWriteMode disk filename false = .ok (file, disk')) :
      Touches h disk filename file.path
  | opensForReading {file : File} (ho : h.openFileReadMode disk filename false = .ok file) :
      Touches h disk filename file.path
  | measures {n : Nat} (hn : getFilesize h disk filename false = some n) :
      Touches h disk filename (h.getFilepath filename false)
  | removes {k : String} {filesize : Option Nat}
      (hr : h.removeFileIfCorruptedOrIncomplete disk filename filesize false k ≠ disk k) :
      Touches h disk filename k

/-- The path is that of an entry of the directory itself. -/
def IsDirectChild (cwd : List Component) (dirpath p : String) : Prop :=
  ∃ c, resolve cwd p = resolve cwd dirpath ++ [c]

/-- Whatever the storage directory and whatever is in it, nothing else is touched for the name. -/
def IsConfined (filename : String) : Prop :=
  ∀ (cwd : List Component) (h : FileHandler) (disk : Disk), IsPosix cwd h →
    ∀ p, Touches h disk filename p → IsDirectChild cwd h.dirpath p

/-- No file goes by the name, or it leads one step down from every directory. -/
def StaysInside (filename : String) : Prop :=
  hasNull filename = true ∨ EndsInDirectory filename ∨
    isAbsolute filename = false ∧ ∃ c, route filename = ⟨0, [c]⟩

variable {h : FileHandler} {disk : Disk} {filename p : String} {cwd : List Component}

theorem canOpen_of_openFileWriteMode {file : File} {disk' : Disk}
    (ho : h.openFileWriteMode disk filename false = .ok (file, disk')) :
    hasNull (h.getFilepath filename false) = false ∧
      h.canOpen (h.getFilepath filename false) = true := by
  unfold openFileWriteMode openFileWrite at ho
  split at ho
  · cases ho
  · rename_i hnull
    split at ho
    · cases ho
    · split at ho
      · rename_i hopen
        exact ⟨Bool.eq_false_iff.mpr hnull, hopen⟩
      · cases ho

/-- The size and the removal go by the path that is opened, which is that of a file. -/
theorem Touches.resolve_eq (ht : Touches h disk filename p) (hposix : IsPosix cwd h) :
    resolve cwd p = resolve cwd (h.getFilepath filename false) ∧
      hasNull (h.getFilepath filename false) = false ∧
        ¬EndsInDirectory (h.getFilepath filename false) := by
  have known : ∀ content, h.lookup disk (h.getFilepath filename false) = some content →
      hasNull (h.getFilepath filename false) = false ∧
        ¬EndsInDirectory (h.getFilepath filename false) := by
    intro content hlookup
    obtain ⟨k, hk, -⟩ := Option.bind_eq_some_iff.mp hlookup
    obtain ⟨hnull, hend, -⟩ := hposix.node _ _ hk
    exact ⟨hnull, hend⟩
  cases ht with
  | opensForWriting ho =>
      obtain ⟨hnull, hopen⟩ := canOpen_of_openFileWriteMode ho
      obtain ⟨-, rfl, -⟩ := openFileWriteMode_eq_ok ho
      refine ⟨rfl, hnull, fun hend ↦ ?_⟩
      exact Bool.false_ne_true ((hposix.canOpen _ hend).symm.trans hopen)
  | opensForReading ho =>
      obtain ⟨⟨hpath, -⟩, hlookup⟩ := openFileReadMode_eq_ok ho
      exact ⟨congrArg (resolve cwd) hpath, known _ hlookup⟩
  | measures hn =>
      obtain ⟨content, hlookup, -⟩ := Option.map_eq_some_iff.mp hn
      exact ⟨rfl, known _ hlookup⟩
  | removes hr =>
      have hk : h.node (h.getFilepath filename false) = some p := by
        by_contra hne
        rcases removeFileIfCorruptedOrIncomplete_cases h disk filename _ false with heq | heq
        · exact hr (congrFun heq p)
        · exact hr ((congrFun heq p).trans (put_of_ne hne))
      obtain ⟨hnull, hend, hresolve⟩ := hposix.node _ _ hk
      exact ⟨hresolve, hnull, hend⟩

/-! ## Joining -/

theorem pathJoin_of_isAbsolute (dirpath : String) (ha : isAbsolute filename = true) :
    pathJoin dirpath filename = filename := if_pos ha

theorem isAbsolute_append {p q : String} (hp : p ≠ "") : isAbsolute (p ++ q) = isAbsolute p := by
  rw [Bool.eq_iff_iff, isAbsolute_iff, isAbsolute_iff, String.toList_append]
  cases hcs : p.toList with
  | nil => exact absurd (String.toList_eq_nil_iff.mp hcs) hp
  | cons c cs => simp

/-- What the components of a joined path are -/
theorem components_pathJoin (dirpath : String) (ha : isAbsolute filename = false) :
    dirpath = "" ∧ pathJoin dirpath filename = filename ∨
      dirpath ≠ "" ∧ isAbsolute (pathJoin dirpath filename) = isAbsolute dirpath ∧
        ∃ cs, (components dirpath = cs ∨ components dirpath = cs ++ [[]]) ∧
          components (pathJoin dirpath filename) = cs ++ components filename := by
  have hrel : ¬filename.startsWith "/" = true := Bool.eq_false_iff.mp ha
  rw [pathJoin, if_neg hrel]
  by_cases hempty : dirpath = ""
  · left
    subst hempty
    exact ⟨rfl, String.empty_append⟩
  · right
    refine ⟨hempty, ?_⟩
    split
    · rename_i hends
      have hslash : dirpath.endsWith "/" = true := by
        rcases Bool.or_eq_true_iff.mp hends with h | h
        · exact absurd (String.isEmpty_iff.mp h) hempty
        · exact h
      have hsuffix : ['/'] <:+ dirpath.toList := by simpa [← String.endsWith_toSlice] using hslash
      obtain ⟨d, hd⟩ := hsuffix
      refine ⟨isAbsolute_append hempty, d.splitOn '/', .inr ?_, ?_⟩
      · rw [components, ← hd]
        exact List.splitOn_append_cons_self d []
      · rw [components, String.toList_append, ← hd, List.append_assoc]
        exact List.splitOn_append_cons_self d filename.toList
    · refine ⟨?_, components dirpath, .inl rfl, components_slash dirpath filename⟩
      rw [String.append_assoc]
      exact isAbsolute_append hempty

theorem resolve_pathJoin (cwd : List Component) (dirpath : String)
    (ha : isAbsolute filename = false) :
    resolve cwd (pathJoin dirpath filename) =
      (components filename).foldl walk (resolve cwd dirpath) := by
  rcases components_pathJoin dirpath ha with ⟨rfl, hjoin⟩ | ⟨-, habs, cs, hdir, hjoin⟩
  · rw [hjoin, resolve, ha]
    rfl
  · rw [resolve, hjoin, habs, List.foldl_append, resolve]
    rcases hdir with hdir | hdir
    · rw [hdir]
    · rw [hdir, List.foldl_append]
      rfl

theorem endsInDirectory_pathJoin (dirpath : String) :
    EndsInDirectory (pathJoin dirpath filename) ↔ EndsInDirectory filename := by
  cases ha : isAbsolute filename with
  | true => rw [pathJoin_of_isAbsolute dirpath ha]
  | false =>
      rcases components_pathJoin dirpath ha with ⟨-, hjoin⟩ | ⟨-, -, cs, -, hjoin⟩
      · rw [hjoin]
      · unfold EndsInDirectory
        rw [hjoin, List.getLast?_append_of_ne_nil _ (components_ne_nil filename)]

theorem hasNull_iff {p : String} : hasNull p = true ↔ Char.ofNat 0 ∈ p.toList :=
  List.contains_iff_mem

theorem hasNull_pathJoin_right (dirpath : String) (hn : hasNull filename = true) :
    hasNull (pathJoin dirpath filename) = true := by
  unfold pathJoin
  split
  · exact hn
  · rw [hasNull_iff] at hn ⊢
    split
    · rw [String.toList_append]
      exact List.mem_append_right _ hn
    · rw [String.toList_append]
      exact List.mem_append_right _ hn

/-- A null character comes from one of the parts. -/
theorem hasNull_pathJoin {dirpath : String} (hdir : hasNull dirpath = false) :
    hasNull (pathJoin dirpath filename) = hasNull filename := by
  have hdir : Char.ofNat 0 ∉ dirpath.toList := mt hasNull_iff.mpr (Bool.eq_false_iff.mp hdir)
  rw [Bool.eq_iff_iff, hasNull_iff, hasNull_iff]
  unfold pathJoin
  split
  · exact Iff.rfl
  · split
    · rw [String.toList_append, List.mem_append, or_iff_right hdir]
    · have hslash : Char.ofNat 0 ∉ "/".toList := by decide
      rw [String.toList_append, String.toList_append, List.mem_append, List.mem_append,
        or_iff_right (not_or.mpr ⟨hdir, hslash⟩)]

/-! ## When a name stays inside -/

theorem isConfined_of_staysInside (hs : StaysInside filename) : IsConfined filename := by
  intro cwd h disk hposix p ht
  obtain ⟨hresolve, hnull, hend⟩ := ht.resolve_eq hposix
  rcases hs with hs | hs | ⟨ha, c, hroute⟩
  · exact absurd (hnull.symm.trans (hasNull_pathJoin_right _ hs)) Bool.false_ne_true
  · exact absurd ((endsInDirectory_pathJoin h.dirpath).mpr hs) hend
  · refine ⟨c, hresolve.trans ?_⟩
    exact (resolve_pathJoin cwd h.dirpath ha).trans (leads_of_route hroute _)

/-- A server that runs in its storage directory, with no file in it -/
def emptyStorage : FileHandler :=
  ⟨".", fun p ↦ ¬EndsInDirectory p, fun p ↦ if hasNull p ∨ EndsInDirectory p then none else some p,
    0, fun _ ↦ 0⟩

theorem isPosix_emptyStorage (cwd : List Component) : IsPosix cwd emptyStorage where
  canOpen p hp := by simp [emptyStorage, hp]
  node p k hk := by
    obtain ⟨hp, hk⟩ := Option.ite_none_left_eq_some.mp hk
    obtain ⟨hnull, hend⟩ := not_or.mp hp
    exact ⟨Bool.eq_false_iff.mpr hnull, hend, congrArg (resolve cwd) (Option.some.inj hk).symm⟩

/-- Every name of a file is taken for an upload. -/
theorem touches_emptyStorage (hnull : hasNull filename = false) (hend : ¬EndsInDirectory filename) :
    Touches emptyStorage (fun _ ↦ none) filename (pathJoin "." filename) := by
  have hopen : emptyStorage.canOpen (pathJoin "." filename) = true := by
    simpa [emptyStorage, endsInDirectory_pathJoin] using hend
  have ho : emptyStorage.openFileWriteMode (fun _ ↦ none) filename false = .ok
      (.forWriting (pathJoin "." filename) (emptyStorage.node (pathJoin "." filename)),
        Disk.put (fun _ ↦ none) (emptyStorage.node (pathJoin "." filename)) (some [])) := by
    have hdot : hasNull "." = false := by decide
    have hfresh : emptyStorage.lookup (fun _ ↦ none) (pathJoin "." filename) = none :=
      Option.bind_fun_none _
    refine (if_neg (Bool.eq_false_iff.mp ((hasNull_pathJoin hdot).trans hnull))).trans ?_
    exact (if_neg (Option.not_isSome_iff_eq_none.mpr hfresh)).trans (if_pos hopen)
  exact .opensForWriting ho

theorem staysInside_of_isConfined (hc : IsConfined filename) : StaysInside filename := by
  by_contra hs
  obtain ⟨hnull, hs⟩ := not_or.mp hs
  obtain ⟨hend, hs⟩ := not_or.mp hs
  -- a working directory as deep as the name is long, whose names the name does not use
  let fresh := freshName (components filename)
  let n := (components filename).length + 1
  obtain ⟨c, hchild⟩ : IsDirectChild (List.replicate n fresh) "." (pathJoin "." filename) :=
    hc _ _ _ (isPosix_emptyStorage _) _ (touches_emptyStorage (Bool.eq_false_iff.mpr hnull) hend)
  rw [resolve_dot] at hchild
  cases ha : isAbsolute filename with
  | true =>
      rw [pathJoin_of_isAbsolute _ ha, resolve, if_pos ha] at hchild
      have hle := length_foldl_walk_le (components filename) []
      rw [hchild, List.length_append, List.length_replicate] at hle
      simp only [List.length_nil, List.length_singleton, n] at hle
      omega
  | false =>
      rw [resolve_pathJoin _ _ ha, resolve_dot, foldl_components] at hchild
      have hfresh : fresh ∉ (route filename).down := by
        intro hmem
        rcases Route.mem_down_foldl hmem with h | h
        · cases h
        · exact freshName_notMem _ h
      exact hs ⟨ha, c, Route.eq_of_leads (Nat.succ_pos _) hfresh hchild⟩

/-- The server touches nothing outside its storage directory for the names that stay inside, and
only for these. -/
theorem isConfined_iff (filename : String) : IsConfined filename ↔ StaysInside filename :=
  ⟨staysInside_of_isConfined, isConfined_of_staysInside⟩

/-- An absolute path is taken as it is. -/
theorem not_isConfined_absolute : ¬IsConfined "/etc/cron.d/job" := by
  intro hc
  have ha : isAbsolute "/etc/cron.d/job" = true := isAbsolute_iff.mpr ⟨_, rfl⟩
  obtain ⟨c, hchild⟩ : IsDirectChild [['s', 'r', 'v']] "." (pathJoin "." "/etc/cron.d/job") :=
    hc _ _ _ (isPosix_emptyStorage _) _ (touches_emptyStorage (by decide) (by decide))
  rw [resolve_dot, pathJoin_of_isAbsolute _ ha, resolve, if_pos ha] at hchild
  exact absurd (List.cons.inj hchild).1 (by decide)

end Rdt.Server
