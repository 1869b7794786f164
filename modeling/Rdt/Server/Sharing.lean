import Mathlib.Data.List.Infix
import Mathlib.Data.List.Induction
import Rdt.Common.FileHandler

/-!
# Connections that share a directory

`open_file` tests whether the path is a file and then opens it, truncating.  The connections run
in threads of their own, so that the calls of others may come in between.
-/

namespace Rdt

namespace FileHandler

/-- `path.isfile(filepath)`: a path with a null character is none. -/
def isfile (h : FileHandler) (disk : Disk) (filepath : String) : Bool :=
  !hasNull filepath && (h.lookup disk filepath).isSome

/-- `open(filepath, "wb")`: it truncates what is there. -/
def openTruncating (h : FileHandler) (disk : Disk) (filepath : String) : Except Exn (File × Disk) :=
  if hasNull filepath then .error ExnClass.valueError.exn
  else if h.canOpen filepath then
    .ok (.forWriting filepath (h.node filepath), disk.put (h.node filepath) (some []))
  else .error ExnClass.invalidFilename.exn

/-- The paths that `open` takes. -/
def Openable (h : FileHandler) (filepath : String) : Prop :=
  hasNull filepath = false ∧ h.canOpen filepath = true

variable (h : FileHandler) (disk : Disk) (filepath : String)

theorem openFileWrite_eq : h.openFileWrite disk filepath =
    if h.isfile disk filepath then .error ExnClass.invalidFilename.exn
    else h.openTruncating disk filepath := by
  unfold openFileWrite openTruncating isfile
  cases hasNull filepath with
  | true => rfl
  | false => rfl

theorem openTruncating_openable (ho : h.Openable filepath) : h.openTruncating disk filepath =
    .ok (.forWriting filepath (h.node filepath), disk.put (h.node filepath) (some [])) := by
  unfold openTruncating
  rw [if_neg (by rw [ho.1]; exact Bool.false_ne_true), if_pos ho.2]

theorem openTruncating_error (ho : ¬h.Openable filepath) :
    ∃ e, h.openTruncating disk filepath = .error e := by
  unfold openTruncating
  by_cases hnull : hasNull filepath = true
  · exact ⟨_, if_pos hnull⟩
  · rw [if_neg hnull, if_neg fun hopen ↦ ho ⟨Bool.eq_false_iff.mpr hnull, hopen⟩]
    exact ⟨_, rfl⟩

end FileHandler

namespace Server

/-- How far the upload of a connection has come with its file. -/
inductive Upload where
  | untested
  | tested
  | refused
  | raised
  | writing
  | stored
  | removed
deriving DecidableEq, Repr

/-- The file is there on behalf of the upload. -/
def Upload.Keeps (u : Upload) : Prop := u = .writing ∨ u = .stored

/-- The calls into the file system, each one step.  What is on disk of the file after a write is
left open. -/
inductive Call where
  | isfile
  | openTruncating
  | write (content : Bytes)
  | close
  | remove
deriving DecidableEq, Repr

/-- The directory and the connections that upload into it -/
structure SharedStorage (ι : Type) where
  disk : Disk
  upload : ι → Upload

namespace SharedStorage

variable {ι : Type} [DecidableEq ι] (h : FileHandler) (filename : ι → String)

def start (disk : Disk) : SharedStorage ι := ⟨disk, fun _ ↦ .untested⟩

def turn (w : SharedStorage ι) (i : ι) (u : Upload) : SharedStorage ι :=
  { w with upload := Function.update w.upload i u }

@[simp] theorem disk_turn (w : SharedStorage ι) (i : ι) (u : Upload) :
    (w.turn i u).disk = w.disk := rfl

@[simp] theorem upload_turn (w : SharedStorage ι) (i : ι) (u : Upload) :
    (w.turn i u).upload i = u := Function.update_self ..

/-- The path that a connection opens, and the regular file it leads to -/
abbrev path (i : ι) : String := h.getFilepath (filename i) false

abbrev file (i : ι) : Option String := h.node (path h filename i)

/-- What `is_filename_valid_for_upload` makes of the answer of `open_file_write_mode`: true, false,
or an exception that it does not catch. -/
def answered (w : SharedStorage ι) (i : ι) : Except Exn (File × Disk) → SharedStorage ι
  | .ok (_, disk) => ⟨disk, Function.update w.upload i .writing⟩
  | .error e => w.turn i (if e = ExnClass.invalidFilename.exn then .refused else .raised)

/-- One call of a connection, if it is its turn to make it. -/
def call (w : SharedStorage ι) (i : ι) : Call → Option (SharedStorage ι)
  | .isfile =>
      if w.upload i = .untested then
        if h.isfile w.disk (path h filename i) then
          some (w.answered i (.error ExnClass.invalidFilename.exn))
        else some (w.turn i .tested)
      else none
  | .openTruncating =>
      if w.upload i = .tested then
        some (w.answered i (h.openTruncating w.disk (path h filename i)))
      else none
  | .write content =>
      if w.upload i = .writing then
        some ⟨w.disk.put (file h filename i)
          ((h.lookup w.disk (path h filename i)).map fun _ ↦ content), w.upload⟩
      else none
  | .close => if w.upload i = .writing then some (w.turn i .stored) else none
  | .remove =>
      if w.upload i = .writing then
        some ⟨w.disk.put (file h filename i) none, Function.update w.upload i .removed⟩
      else none

/-- The calls in the order in which they are made -/
def run (w : SharedStorage ι) (calls : List (ι × Call)) : Option (SharedStorage ι) :=
  calls.foldlM (fun w ic ↦ w.call h filename ic.1 ic.2) w

/-- Without a call in between, the test and the open are `open_file_write_mode`. -/
theorem isfile_openTruncating (w : SharedStorage ι) {i : ι} (hi : w.upload i = .untested) :
    ((w.call h filename i .isfile).bind fun w' ↦
      if w'.upload i = .tested then w'.call h filename i .openTruncating else some w') =
      some (w.answered i (h.openFileWriteMode w.disk (filename i) false)) := by
  have htested : (w.turn i .tested).upload i = .tested := Function.update_self ..
  unfold FileHandler.openFileWriteMode
  rw [FileHandler.openFileWrite_eq, call, if_pos hi]
  by_cases hfile : h.isfile w.disk (path h filename i) = true
  · rw [if_pos hfile, if_pos hfile, Option.bind_some, if_neg]
    show ¬Function.update w.upload i Upload.refused i = .tested
    rw [Function.update_self]
    exact fun heq ↦ (by cases heq)
  · rw [if_neg hfile, if_neg hfile, Option.bind_some, if_pos htested, call, if_pos htested]
    show some ((w.turn i .tested).answered i (h.openTruncating w.disk (path h filename i))) = _
    cases h.openTruncating w.disk (path h filename i) with
    | error e => simp only [answered, turn, Function.update_idem]
    | ok r => simp only [answered, turn, Function.update_idem]

/-! ## One call -/

variable {h filename} {w w' : SharedStorage ι} {i j k : ι} {c : Call} {calls : List (ι × Call)}

/-- What a call can do. -/
inductive Does (h : FileHandler) (filename : ι → String) (w : SharedStorage ι) (i : ι) :
    Call → SharedStorage ι → Prop
  | refuses (hi : w.upload i = .untested) : Does h filename w i .isfile (w.turn i .refused)
  | passes (hi : w.upload i = .untested) (hfree : h.isfile w.disk (path h filename i) = false) :
      Does h filename w i .isfile (w.turn i .tested)
  | opens (hi : w.upload i = .tested) (ho : h.Openable (path h filename i)) :
      Does h filename w i .openTruncating
        ⟨w.disk.put (file h filename i) (some []), Function.update w.upload i .writing⟩
  | fails {u : Upload} (hi : w.upload i = .tested) (ho : ¬h.Openable (path h filename i))
      (hu : u = .refused ∨ u = .raised) : Does h filename w i .openTruncating (w.turn i u)
  | writes (content : Bytes) (hi : w.upload i = .writing) :
      Does h filename w i (.write content)
        ⟨w.disk.put (file h filename i)
          ((h.lookup w.disk (path h filename i)).map fun _ ↦ content), w.upload⟩
  | closes (hi : w.upload i = .writing) : Does h filename w i .close (w.turn i .stored)
  | removes (hi : w.upload i = .writing) :
      Does h filename w i .remove
        ⟨w.disk.put (file h filename i) none, Function.update w.upload i .removed⟩

theorem call_does (hc : w.call h filename i c = some w') : Does h filename w i c w' := by
  unfold call at hc
  cases c with
  | isfile =>
      dsimp only at hc
      split at hc
      · rename_i hi
        split at hc
        · obtain rfl := Option.some.inj hc
          exact .refuses hi
        · rename_i hfile
          obtain rfl := Option.some.inj hc
          exact .passes hi (Bool.eq_false_iff.mpr hfile)
      · cases hc
  | openTruncating =>
      dsimp only at hc
      split at hc
      · rename_i hi
        obtain rfl := Option.some.inj hc
        by_cases ho : h.Openable (path h filename i)
        · rw [FileHandler.openTruncating_openable h w.disk _ ho]
          exact .opens hi ho
        · obtain ⟨e, he⟩ := FileHandler.openTruncating_error h w.disk _ ho
          rw [he]
          refine .fails hi ho ?_
          split
          · exact .inl rfl
          · exact .inr rfl
      · cases hc
  | write content =>
      dsimp only at hc
      split at hc
      · rename_i hi
        obtain rfl := Option.some.inj hc
        exact .writes content hi
      · cases hc
  | close =>
      dsimp only at hc
      split at hc
      · rename_i hi
        obtain rfl := Option.some.inj hc
        exact .closes hi
      · cases hc
  | remove =>
      dsimp only at hc
      split at hc
      · rename_i hi
        obtain rfl := Option.some.inj hc
        exact .removes hi
      · cases hc

theorem run_append {es es' : List (ι × Call)} :
    run h filename w (es ++ es') = (run h filename w es).bind fun w' ↦ run h filename w' es' :=
  List.foldlM_append

theorem run_concat : run h filename w (calls ++ [(i, c)]) =
    (run h filename w calls).bind fun w' ↦ w'.call h filename i c := by
  rw [run_append]
  congr
  funext w'
  exact bind_pure _

/-- A call leaves the other connections where they are. -/
theorem Does.upload_of_ne (hd : Does h filename w i c w') (hne : j ≠ i) : w'.upload j = w.upload j := by
  cases hd with
  | writes => rfl
  | refuses | passes | opens | fails | closes | removes => exact Function.update_of_ne hne _ _

/-- Of a file that a connection does not open its calls leave what is on disk. -/
theorem Does.disk_of_ne (hd : Does h filename w i c w') {p : String} (hp : file h filename i ≠ some p) :
    w'.disk p = w.disk p := by
  cases hd with
  | refuses | passes | fails | closes => rfl
  | opens | writes | removes => exact FileHandler.put_of_ne hp

/-- Only an open makes a file, only a removal takes it away. -/
theorem Does.disk_cases (hd : Does h filename w i c w') {p : String} :
    ((w'.disk p = none ↔ w.disk p = none) ∧ (c = .remove → file h filename i ≠ some p)) ∨
      file h filename i = some p ∧
      (c = .openTruncating ∧ h.Openable (path h filename i) ∧ w'.disk p ≠ none ∨
        c = .remove ∧ w'.upload i = .removed ∧ w.upload i = .writing ∧ w'.disk p = none) := by
  by_cases hp : file h filename i = some p
  · cases hd with
    | refuses | passes | fails | closes => exact .inl ⟨Iff.rfl, fun hc ↦ (by cases hc)⟩
    | opens hi ho =>
        refine .inr ⟨hp, .inl ⟨rfl, ho, ?_⟩⟩
        dsimp only
        rw [FileHandler.put_self hp]
        exact Option.some_ne_none _
    | writes content hi =>
        refine .inl ⟨?_, fun hc ↦ (by cases hc)⟩
        dsimp only
        rw [FileHandler.put_self hp, Option.map_eq_none_iff, FileHandler.lookup_eq hp]
    | removes hi =>
        exact .inr ⟨hp, .inr ⟨rfl, Function.update_self .., hi, FileHandler.put_self hp⟩⟩
  · exact .inl ⟨by rw [hd.disk_of_ne hp], fun _ ↦ hp⟩

/-- Only an open makes a connection keep a file. -/
theorem Does.keeps (hd : Does h filename w i c w') (hj : (w'.upload j).Keeps) :
    (w.upload j).Keeps ∨ j = i ∧ c = .openTruncating ∧ w'.upload j = .writing ∧
      ∀ p, file h filename j = some p → w'.disk p ≠ none := by
  by_cases hne : j = i
  · subst hne
    cases hd with
    | refuses | passes =>
        rw [upload_turn] at hj
        rcases hj with hj | hj <;> cases hj
    | fails _ _ hu =>
        rw [upload_turn] at hj
        rcases hu with rfl | rfl <;> rcases hj with hj | hj <;> cases hj
    | opens =>
        refine .inr ⟨rfl, rfl, Function.update_self .., fun p hp ↦ ?_⟩
        dsimp only
        rw [FileHandler.put_self hp]
        exact Option.some_ne_none _
    | writes _ hi | closes hi | removes hi => exact .inl (.inl hi)
  · rw [hd.upload_of_ne hne] at hj
    exact .inl hj

/-- A file stays kept until its connection removes it. -/
theorem Does.keeps_of_ne (hd : Does h filename w i c w') (hj : (w.upload j).Keeps)
    (hne : (i, c) ≠ (j, .remove)) : (w'.upload j).Keeps := by
  by_cases heq : j = i
  · subst heq
    cases hd with
    | refuses hi | passes hi | opens hi | fails hi =>
        rw [hi] at hj
        rcases hj with hj | hj <;> cases hj
    | writes => exact hj
    | closes => exact .inr (Function.update_self ..)
    | removes => exact absurd rfl hne
  · rw [hd.upload_of_ne heq]
    exact hj

/-! ## One writer for each file -/

variable (h filename) in
/-- An open makes `is_filename_valid_for_upload` true only if nothing is at the path, neither a
file nor a device; it leaves the files that are there as they are; and no two connections write to
one file. -/
structure OneWriter (disk : Disk) (calls : List (ι × Call)) : Prop where
  fresh : ∀ before i w w', before ++ [(i, .openTruncating)] <+: calls →
    run h filename (start disk) before = some w → w.call h filename i .openTruncating = some w' →
    w'.upload i = .writing → ∃ p, file h filename i = some p ∧ w.disk p = none
  untouched : ∀ before i w w', before ++ [(i, .openTruncating)] <+: calls →
    run h filename (start disk) before = some w → w.call h filename i .openTruncating = some w' →
    ∀ p content, w.disk p = some content → w'.disk p = some content
  unique : ∀ before w, before <+: calls → run h filename (start disk) before = some w →
    ∀ i j p, w.upload i = .writing → w.upload j = .writing →
      file h filename i = some p → file h filename j = some p → i = j

/-- During the calls the connection opens its file, and it does not remove it again. -/
def OpensAndKeeps (i : ι) (calls : List (ι × Call)) : Prop :=
  ∃ before after, calls = before ++ (i, .openTruncating) :: after ∧ (i, .remove) ∉ after

variable (h filename) in
/-- Between the test of a connection and its open another one opens the same file, whatever its
name for it, and keeps it. -/
def Overtaken (calls : List (ι × Call)) : Prop :=
  ∃ before i between, before ++ (i, .isfile) :: between ++ [(i, .openTruncating)] <+: calls ∧
    h.Openable (path h filename i) ∧
    ∃ j p, file h filename i = some p ∧ file h filename j = some p ∧
      h.Openable (path h filename j) ∧ OpensAndKeeps j between

variable (h filename) in
/-- A connection opens a path that leads to a device: `isfile` is false of it. -/
def OpensDevice (calls : List (ι × Call)) : Prop :=
  ∃ i, (i, .openTruncating) ∈ calls ∧ h.Openable (path h filename i) ∧ file h filename i = none

omit [DecidableEq ι] in
theorem OpensAndKeeps.concat (hk : OpensAndKeeps j calls) (hne : (i, c) ≠ (j, .remove)) :
    OpensAndKeeps j (calls ++ [(i, c)]) := by
  obtain ⟨before, after, rfl, hafter⟩ := hk
  refine ⟨before, after ++ [(i, c)], by simp, fun hmem ↦ ?_⟩
  rcases List.mem_append.mp hmem with hmem | hmem
  · exact hafter hmem
  · exact hne (List.mem_singleton.mp hmem).symm

/-! ### What holds as long as every open was of a new file -/

variable (h filename) in
structure Sound (w : SharedStorage ι) : Prop where
  there : ∀ i, (w.upload i).Keeps → ∃ p, file h filename i = some p ∧ w.disk p ≠ none
  unique : ∀ i j, (w.upload i).Keeps → (w.upload j).Keeps →
    file h filename i = file h filename j → i = j

omit [DecidableEq ι] in
theorem sound_start (disk : Disk) : Sound h filename (start disk) :=
  ⟨fun i hi ↦ (by rcases hi with hi | hi <;> cases hi),
    fun i j hi ↦ (by rcases hi with hi | hi <;> cases hi)⟩

theorem Sound.does (hs : Sound h filename w) (hd : Does h filename w i c w')
    (hfresh : c = .openTruncating → w'.upload i = .writing →
      ∃ p, file h filename i = some p ∧ w.disk p = none) : Sound h filename w' := by
  -- a file just opened is none that was kept before
  have hnew : ∀ j, c = .openTruncating → w'.upload i = .writing → (w.upload j).Keeps →
      file h filename i ≠ file h filename j := by
    intro j hc hwriting hj heq
    obtain ⟨p, hp, hnone⟩ := hfresh hc hwriting
    obtain ⟨p', hp', hthere⟩ := hs.there j hj
    obtain rfl := Option.some.inj (hp.symm.trans (heq.trans hp'))
    exact hthere hnone
  refine ⟨fun j hj ↦ ?_, fun j k hj hk hfile ↦ ?_⟩
  · rcases hd.keeps hj with hj' | ⟨rfl, hc, hwriting, hdisk⟩
    · obtain ⟨p, hp, hthere⟩ := hs.there j hj'
      refine ⟨p, hp, ?_⟩
      rcases hd.disk_cases (p := p) with ⟨hiff, -⟩ | ⟨hp', ⟨-, -, hdisk⟩ | ⟨-, hgone, hi, -⟩⟩
      · exact fun hnone ↦ hthere (hiff.mp hnone)
      · exact hdisk
      · obtain rfl := hs.unique j i hj' (.inl hi) (hp.trans hp'.symm)
        rw [hgone] at hj
        rcases hj with hj | hj <;> cases hj
    · obtain ⟨p, hp, -⟩ := hfresh hc hwriting
      exact ⟨p, hp, hdisk p hp⟩
  · rcases hd.keeps hj with hj' | ⟨rfl, hc, hwriting, -⟩
    · rcases hd.keeps hk with hk' | ⟨rfl, hc, hwriting, -⟩
      · exact hs.unique j k hj' hk' hfile
      · exact absurd hfile.symm (hnew j hc hwriting hj')
    · rcases hd.keeps hk with hk' | ⟨rfl, -, -, -⟩
      · exact absurd hfile (hnew k hc hwriting hk')
      · rfl

/-- The run up to a call that is made later -/
theorem run_of_prefix {es es' : List (ι × Call)} (hp : es <+: es')
    (hr : (run h filename w es').isSome = true) : ∃ w', run h filename w es = some w' := by
  obtain ⟨rest, rfl⟩ := hp
  rw [run_append] at hr
  cases hrun : run h filename w es with
  | none =>
      rw [hrun] at hr
      cases hr
  | some w' => exact ⟨w', rfl⟩

theorem run_concat_some {w'' : SharedStorage ι} (hr : run h filename w (calls ++ [(i, c)]) = some w'') :
    ∃ w', run h filename w calls = some w' ∧ w'.call h filename i c = some w'' := by
  rw [run_concat] at hr
  exact Option.bind_eq_some_iff.mp hr

theorem sound_of_fresh {disk : Disk} {before : List (ι × Call)}
    (hfresh : ∀ before i w w', before ++ [(i, Call.openTruncating)] <+: calls →
      run h filename (start disk) before = some w → w.call h filename i .openTruncating = some w' →
      w'.upload i = .writing → ∃ p, file h filename i = some p ∧ w.disk p = none) (hp : before <+: calls)
    (hr : run h filename (start disk) before = some w) : Sound h filename w := by
  induction before using List.reverseRecOn generalizing w with
  | nil =>
      obtain rfl := Option.some.inj hr
      exact sound_start disk
  | append_singleton before e ih =>
      obtain ⟨i, c⟩ := e
      obtain ⟨w', hr', hc⟩ := run_concat_some hr
      refine (ih ((List.prefix_append _ _).trans hp) hr').does (call_does hc) ?_
      rintro rfl hwriting
      exact hfresh before i w' w hp hr' hc hwriting

theorem keeps_run (hr : run h filename w calls = some w') (hj : (w.upload j).Keeps)
    (hno : (j, Call.remove) ∉ calls) : (w'.upload j).Keeps := by
  induction calls using List.reverseRecOn generalizing w' with
  | nil =>
      obtain rfl := Option.some.inj hr
      exact hj
  | append_singleton calls e ih =>
      obtain ⟨i, c⟩ := e
      obtain ⟨w'', hr', hc⟩ := run_concat_some hr
      refine (call_does hc).keeps_of_ne (ih hr' fun hmem ↦ hno (List.mem_append_left _ hmem)) ?_
      exact fun heq ↦ hno (List.mem_append_right _ (List.mem_singleton.mpr heq.symm))

theorem OpensAndKeeps.keeps (hk : OpensAndKeeps j calls) (ho : h.Openable (path h filename j))
    (hr : run h filename w calls = some w') : (w'.upload j).Keeps := by
  obtain ⟨before, after, rfl, hno⟩ := hk
  rw [← List.singleton_append, ← List.append_assoc, run_append] at hr
  obtain ⟨w₂, hr₂, hafter⟩ := Option.bind_eq_some_iff.mp hr
  obtain ⟨w₁, -, hopen⟩ := run_concat_some hr₂
  refine keeps_run hafter ?_ hno
  cases call_does hopen with
  | opens => exact .inl (Function.update_self ..)
  | fails _ hno => exact absurd ho hno

/-! ### What an overtaken test is needed for -/

/-- A file that is there when a connection has tested its path was made after the test. -/
theorem tested_run {disk : Disk} (hr : run h filename (start disk) calls = some w)
    (hj : w.upload j = .tested) (ho : h.Openable (path h filename j)) :
    ∃ before between, calls = before ++ (j, .isfile) :: between ∧
      ∀ p, file h filename j = some p → w.disk p ≠ none →
        ∃ i, file h filename i = some p ∧ h.Openable (path h filename i) ∧ OpensAndKeeps i between := by
  induction calls using List.reverseRecOn generalizing w with
  | nil =>
      obtain rfl := Option.some.inj hr
      cases hj
  | append_singleton calls e ih =>
      obtain ⟨i, c⟩ := e
      obtain ⟨w', hr', hc⟩ := run_concat_some hr
      have hd := call_does hc
      by_cases hne : j = i
      · subst hne
        cases hd with
        | passes hi hfree =>
            refine ⟨calls, [], rfl, fun p hp hthere ↦ absurd ?_ hthere⟩
            rw [FileHandler.isfile, ho.1, FileHandler.lookup_eq hp] at hfree
            exact Option.isSome_eq_false_iff.mp hfree |> Option.isNone_iff_eq_none.mp
        | refuses | opens | closes | removes =>
            simp only [turn, Function.update_self] at hj
            cases hj
        | fails _ _ hu =>
            simp only [turn, Function.update_self] at hj
            subst hj
            rcases hu with hu | hu <;> cases hu
        | writes _ hi => exact absurd (hi.symm.trans hj) (fun heq ↦ (by cases heq))
      · rw [hd.upload_of_ne hne] at hj
        obtain ⟨before, between, rfl, hmade⟩ := ih hr' hj
        refine ⟨before, between ++ [(i, c)], by simp, fun p hp hthere ↦ ?_⟩
        rcases hd.disk_cases (p := p) with
          ⟨hiff, hremove⟩ | ⟨hp', ⟨rfl, ho', -⟩ | ⟨-, -, -, hnone⟩⟩
        · obtain ⟨k, hk, hok, hkeeps⟩ := hmade p hp fun hnone ↦ hthere (hiff.mpr hnone)
          refine ⟨k, hk, hok, hkeeps.concat fun heq ↦ ?_⟩
          obtain ⟨rfl, rfl⟩ := Prod.mk.inj heq
          exact hremove rfl hk
        · exact ⟨i, hp', ho', between, [], rfl, List.not_mem_nil⟩
        · exact absurd hnone hthere

theorem Does.untouched (hd : Does h filename w i .openTruncating w')
    (hfresh : w'.upload i = .writing → ∃ p, file h filename i = some p ∧ w.disk p = none) {p : String}
    {content : Bytes} (hp : w.disk p = some content) : w'.disk p = some content := by
  cases hd with
  | opens =>
      obtain ⟨p', hp', hnone⟩ := hfresh (Function.update_self ..)
      have hne : file h filename i ≠ some p := by
        intro heq
        obtain rfl := Option.some.inj (hp'.symm.trans heq)
        rw [hnone] at hp
        cases hp
      dsimp only
      rw [FileHandler.put_of_ne hne, hp]
  | fails => exact hp

/-- In every run of any number of uploads there is one writer for each file, if and only if no test
is overtaken and no device is opened. -/
theorem oneWriter_iff (h : FileHandler) (filename : ι → String) (disk : Disk)
    (calls : List (ι × Call)) (hr : (run h filename (start disk) calls).isSome = true) :
    OneWriter h filename disk calls ↔
      ¬Overtaken h filename calls ∧ ¬OpensDevice h filename calls := by
  constructor
  · intro ho
    have hopens : ∀ before i, before ++ [(i, Call.openTruncating)] <+: calls →
        h.Openable (path h filename i) → ∃ w, run h filename (start disk) before = some w ∧
          ∃ p, file h filename i = some p ∧ w.disk p = none := by
      intro before i hp hopenable
      obtain ⟨w', hw'⟩ := run_of_prefix hp hr
      obtain ⟨w, hw, hopen⟩ := run_concat_some hw'
      refine ⟨w, hw, ho.fresh _ i w w' hp hw hopen ?_⟩
      cases call_does hopen with
      | opens => exact Function.update_self ..
      | fails _ hno => exact absurd hopenable hno
    constructor
    · rintro ⟨before, i, between, hp, hopenable, j, p, hi, hj, hjopenable, hkeeps⟩
      obtain ⟨w, hw, p', hp', hnone⟩ := hopens _ i hp hopenable
      obtain rfl := Option.some.inj (hi.symm.trans hp')
      have hsound := sound_of_fresh ho.fresh ((List.prefix_append _ _).trans hp) hw
      rw [← List.singleton_append, ← List.append_assoc, run_append] at hw
      obtain ⟨w₁, -, hbetween⟩ := Option.bind_eq_some_iff.mp hw
      obtain ⟨p', hp', hthere⟩ := hsound.there j (hkeeps.keeps hjopenable hbetween)
      obtain rfl := Option.some.inj (hj.symm.trans hp')
      exact hthere hnone
    · rintro ⟨i, hmem, hopenable, hdevice⟩
      obtain ⟨before, after, rfl⟩ := List.append_of_mem hmem
      have hp : before ++ [(i, Call.openTruncating)] <+: before ++ (i, .openTruncating) :: after :=
        ⟨after, by simp⟩
      obtain ⟨w, -, p, hp', -⟩ := hopens before i hp hopenable
      exact Option.some_ne_none p (hp'.symm.trans hdevice)
  · rintro ⟨hno, hdevice⟩
    have hfresh : ∀ before i w w', before ++ [(i, Call.openTruncating)] <+: calls →
        run h filename (start disk) before = some w →
        w.call h filename i .openTruncating = some w' → w'.upload i = .writing →
        ∃ p, file h filename i = some p ∧ w.disk p = none := by
      intro before i w w' hp hw hopen hwriting
      cases call_does hopen with
      | opens hi hopenable =>
          obtain ⟨before, between, rfl, hmade⟩ := tested_run hw hi hopenable
          cases hfile : file h filename i with
          | none =>
              have hmem := hp.subset (List.mem_append_right _ (List.mem_singleton_self _))
              exact absurd ⟨i, hmem, hopenable, hfile⟩ hdevice
          | some p =>
              refine ⟨p, rfl, ?_⟩
              by_contra hthere
              obtain ⟨j, hj, hjopenable, hkeeps⟩ := hmade p hfile hthere
              exact hno ⟨before, i, between, hp, hopenable, j, p, hfile, hj, hjopenable, hkeeps⟩
      | fails _ _ hu =>
          rw [upload_turn] at hwriting
          subst hwriting
          rcases hu with hu | hu <;> cases hu
    refine ⟨hfresh, fun before i w w' hp hw hopen p content ↦ ?_, fun before w hp hw i j p hi hj hpi hpj ↦ ?_⟩
    · exact (call_does hopen).untouched (hfresh before i w w' hp hw hopen)
    · exact (sound_of_fresh hfresh hp hw).unique i j (.inl hi) (.inl hj) (hpi.trans hpj.symm)

namespace Local

def fileHandler : FileHandler := ⟨"storage", fun _ ↦ true, some, 2 * minimumFreeGap, fun _ ↦ 0⟩

/-- Two uploads of the name "a", one after the other -/
def inTurn : List (Bool × Call) :=
  [(false, .isfile), (false, .openTruncating), (false, .write [1, 2]), (true, .isfile), (false, .close)]

/-- Both test before either of them opens. -/
def atOnce : List (Bool × Call) :=
  [(false, .isfile), (true, .isfile), (false, .openTruncating), (false, .write [1, 2]),
    (true, .openTruncating)]

end Local

theorem oneWriter_iff_inTurn :
    OneWriter Local.fileHandler (fun _ ↦ "a") (fun _ ↦ none) Local.inTurn ↔
      ¬Overtaken Local.fileHandler (fun _ ↦ "a") Local.inTurn ∧
        ¬OpensDevice Local.fileHandler (fun _ ↦ "a") Local.inTurn :=
  oneWriter_iff Local.fileHandler (fun _ ↦ "a") (fun _ ↦ none) Local.inTurn (by decide +kernel)

/-- Both uploads are accepted, and the second one truncates what the first one has written. -/
theorem not_oneWriter_atOnce :
    ¬OneWriter Local.fileHandler (fun _ ↦ "a") (fun _ ↦ none) Local.atOnce := by
  intro ho
  have hboth : (run Local.fileHandler (fun _ ↦ "a") (start fun _ ↦ none) Local.atOnce).map
      (fun w ↦ (w.upload false, w.upload true)) = some (.writing, .writing) := by decide +kernel
  obtain ⟨w, hw, hwriting⟩ := Option.map_eq_some_iff.mp hboth
  obtain ⟨hfalse, htrue⟩ := Prod.mk.inj hwriting
  cases ho.unique Local.atOnce w List.prefix_rfl hw false true _ hfalse htrue rfl rfl

end SharedStorage

end Server

end Rdt
