import MqStudio.Update.Mirrors

/-!
# Learned Mirrors

What a history of checks does to the mirrors: `MergeMirrors` under `rememberMirror`, which merges a
manifest's list into the learned mirrors, and under `plan`, which merges those into the ones compiled
in. The state file and the manifests are arbitrary.

## Main definitions

- `remembered`: the memory after a history of accepted manifests.
- `learnedAs`: the mirror a name was learned as.
- `Guarded`: what is asked of a list of mirrors.

## Main results

- `shipped_mirrors_stay`: after any history the mirrors compiled in come first, unchanged; what was
  planned stays planned, a learned mirror keeps its URLs, and merging again changes nothing.
-/

namespace MqStudio.Update

/-! ## Merging -/

section Merging

variable {seen other : List String} {xs ys : List Mirror} {m : Mirror}

/-- A mirror is merged unless it is invalid or its name was seen. -/
theorem unseen_cons_pos (hvalid : m.valid = true) (hnew : m.name ∉ seen) :
    unseen seen (m :: xs) = m :: unseen (m.name :: seen) xs := by
  rw [unseen, if_pos]
  simp [hvalid, hnew]

theorem unseen_cons_neg (h : m.valid = true → m.name ∈ seen) :
    unseen seen (m :: xs) = unseen seen xs := by
  rw [unseen, if_neg]
  simpa using h

/-- One step of a merge, either way. -/
theorem unseen_cases (seen : List String) (m : Mirror) : m.valid = true ∧ m.name ∉ seen ∨
    (m.valid = true → m.name ∈ seen) := by
  by_cases hvalid : m.valid = true
  · by_cases hnew : m.name ∈ seen
    · exact .inr fun _ => hnew
    · exact .inl ⟨hvalid, hnew⟩
  · exact .inr fun h => absurd h hvalid

/-- Only which names were seen matters. -/
theorem unseen_congr (h : ∀ name, name ∈ seen ↔ name ∈ other) (xs : List Mirror) :
    unseen seen xs = unseen other xs := by
  induction xs generalizing seen other with
  | nil => rfl
  | cons m rest ih =>
    rcases unseen_cases seen m with ⟨hvalid, hnew⟩ | hold
    · have hnext : ∀ name, name ∈ m.name :: seen ↔ name ∈ m.name :: other := by
        intro name
        rw [List.mem_cons, List.mem_cons, h name]
      rw [unseen_cons_pos hvalid hnew, unseen_cons_pos hvalid ((h _).not.mp hnew), ih hnext]
    · rw [unseen_cons_neg hold, unseen_cons_neg fun hvalid => (h _).mp (hold hvalid), ih h]

/-- **A second list** is merged into what the first left. -/
theorem unseen_append (seen : List String) (xs ys : List Mirror) : unseen seen (xs ++ ys) =
    unseen seen xs ++ unseen ((unseen seen xs).map Mirror.name ++ seen) ys := by
  induction xs generalizing seen with
  | nil => rfl
  | cons m rest ih =>
    rw [List.cons_append]
    rcases unseen_cases seen m with ⟨hvalid, hnew⟩ | hold
    · rw [unseen_cons_pos hvalid hnew, unseen_cons_pos hvalid hnew, ih, List.cons_append,
        List.map_cons]
      congr 2
      apply unseen_congr
      intro name
      simp only [List.mem_append, List.mem_cons]
      tauto
    · rw [unseen_cons_neg hold, unseen_cons_neg hold, ih]

/-- Merging what was merged, with more names seen, is merging the list itself. -/
theorem unseen_unseen (hsub : ∀ name ∈ other, name ∈ seen) (xs : List Mirror) :
    unseen seen (unseen other xs) = unseen seen xs := by
  induction xs generalizing seen other with
  | nil => rfl
  | cons m rest ih =>
    rcases unseen_cases other m with ⟨hvalid, hnew⟩ | hold
    · rw [unseen_cons_pos hvalid hnew]
      rcases unseen_cases seen m with ⟨_, hfresh⟩ | hseen
      · rw [unseen_cons_pos hvalid hfresh, unseen_cons_pos hvalid hfresh, ih]
        intro name hname
        rcases List.mem_cons.mp hname with heq | hname
        · exact heq ▸ List.mem_cons_self
        · exact List.mem_cons_of_mem _ (hsub name hname)
      · rw [unseen_cons_neg hseen, unseen_cons_neg hseen, ih]
        intro name hname
        rcases List.mem_cons.mp hname with heq | hname
        · exact heq ▸ hseen hvalid
        · exact hsub name hname
    · rw [unseen_cons_neg hold, unseen_cons_neg fun hvalid => hsub _ (hold hvalid), ih hsub]

/-- Of a list that was merged nothing is left to merge. -/
theorem unseen_of_seen (h : ∀ m ∈ xs, m.valid = true → m.name ∈ seen) : unseen seen xs = [] := by
  induction xs with
  | nil => rfl
  | cons m rest ih =>
    rw [unseen_cons_neg (h m List.mem_cons_self)]
    exact ih fun other hother => h other (List.mem_cons_of_mem _ hother)

/-- A name of a valid mirror is seen, or is merged. -/
theorem name_of_valid (h : m ∈ xs) (hvalid : m.valid = true) :
    m.name ∈ (unseen seen xs).map Mirror.name ++ seen := by
  induction xs generalizing seen with
  | nil => cases h
  | cons first rest ih =>
    rcases unseen_cases seen first with ⟨hfirst, hnew⟩ | hold
    · rw [unseen_cons_pos hfirst hnew]
      rcases List.mem_cons.mp h with rfl | h
      · exact List.mem_append_left _ (List.mem_map.mpr ⟨m, List.mem_cons_self, rfl⟩)
      · have hlater : m.name ∈ (unseen (first.name :: seen) rest).map Mirror.name ++
            first.name :: seen := ih h
        simp only [List.mem_append, List.map_cons, List.mem_cons] at hlater ⊢
        tauto
    · rw [unseen_cons_neg hold]
      rcases List.mem_cons.mp h with rfl | h
      · exact List.mem_append_right _ (hold hvalid)
      · exact ih h

theorem mem_of_unseen (h : m ∈ unseen seen xs) : m ∈ xs := by
  induction xs generalizing seen with
  | nil => cases h
  | cons first rest ih =>
    rcases unseen_cases seen first with ⟨hfirst, hnew⟩ | hold
    · rw [unseen_cons_pos hfirst hnew] at h
      rcases List.mem_cons.mp h with rfl | h
      · exact List.mem_cons_self
      · exact List.mem_cons_of_mem _ (ih h)
    · rw [unseen_cons_neg hold] at h
      exact List.mem_cons_of_mem _ (ih h)

/-- **Merging the same list again** changes nothing. -/
theorem mergeMirrors_again (known learned : List Mirror) :
    mergeMirrors (mergeMirrors known learned) learned = mergeMirrors known learned := by
  unfold mergeMirrors
  have hfront : unseen [] (unseen [] (known ++ learned)) = unseen [] (known ++ learned) :=
    unseen_unseen (fun _ hname => hname) _
  have hback : unseen ((unseen [] (known ++ learned)).map Mirror.name ++ []) learned = [] :=
    unseen_of_seen fun m hm hvalid => name_of_valid (List.mem_append_right _ hm) hvalid
  rw [unseen_append, hfront, hback, List.append_nil]

/-- A name of its own: the first valid mirror that bears it. -/
def firstNamed (mirrors : List Mirror) (name : String) : Option Mirror :=
  mirrors.find? fun m => m.valid && m.name = name

/-- **A merge keeps who bears a name**, unless the name was seen. -/
theorem firstNamed_unseen (name : String) : firstNamed (unseen seen xs) name =
    if name ∈ seen then none else firstNamed xs name := by
  induction xs generalizing seen with
  | nil => simp [firstNamed, unseen]
  | cons m rest ih =>
    rcases unseen_cases seen m with ⟨hvalid, hnew⟩ | hold
    · rw [unseen_cons_pos hvalid hnew, firstNamed, firstNamed, List.find?_cons, List.find?_cons]
      by_cases hname : m.name = name
      · rw [if_neg (hname ▸ hnew)]
        simp [hvalid, hname]
      · have hother : firstNamed (unseen (m.name :: seen) rest) name =
            if name ∈ m.name :: seen then none else firstNamed rest name := ih
        rw [firstNamed, firstNamed] at hother
        have hcons : name ∈ m.name :: seen ↔ name ∈ seen := by
          simp [Ne.symm hname]
        simp only [hname, decide_false, Bool.and_false, hother, hcons]
    · rw [unseen_cons_neg hold, ih, firstNamed, firstNamed, List.find?_cons]
      by_cases hseen : name ∈ seen
      · rw [if_pos hseen, if_pos hseen]
      · have hno : (m.valid && decide (m.name = name)) = false := by
          rw [Bool.and_eq_false_iff, decide_eq_false_iff_not]
          by_cases hvalid : m.valid = true
          · exact .inr fun hname => hseen (hname ▸ hold hvalid)
          · exact .inl (by simpa using hvalid)
        rw [if_neg hseen, if_neg hseen, hno]

theorem firstNamed_append (name : String) : firstNamed (xs ++ ys) name =
    (firstNamed xs name).or (firstNamed ys name) := List.find?_append

end Merging

/-! ## Histories -/

/-- The memory after accepted manifests, each at its time. -/
def remembered (calendar : Calendar) (memory : MirrorMemory) (history : List (Int × Checked)) :
    MirrorMemory :=
  history.foldl (fun memory event => rememberMirror calendar memory event.1 event.2) memory

/-- The mirror a name was learned as. -/
def learnedAs (memory : MirrorMemory) (name : String) : Option Mirror :=
  firstNamed memory.learnedMirrors name

/-- **What is asked of a list of mirrors**: those compiled in come first, then only learned ones; no
    two have one name, and all are over HTTPS. -/
structure Guarded (memory : MirrorMemory) (mirrors : List Mirror) : Prop where
  shipped : ∃ learned, mirrors = bootstrapMirrors ++ learned ∧
    ∀ m ∈ learned, m ∈ memory.learnedMirrors
  distinct : mirrors.Pairwise fun x y => x.name ≠ y.name
  secure : ∀ m ∈ mirrors, overHTTPS m.manifestURL = true ∧ overHTTPS m.assetBase = true

section Histories

variable {calendar : Calendar} {memory : MirrorMemory} {now : Int} {checked : Checked}

/-- What is planned: the mirrors compiled in, and what else was learned. -/
theorem plan_eq (calendar : Calendar) (memory : MirrorMemory) (now : Int) :
    (plan calendar memory now).1 =
      bootstrapMirrors ++ unseen ["github", "r2"] memory.learnedMirrors := by
  rw [plan_mirrors]
  unfold mergeMirrors bootstrapMirrors
  simp only [List.cons_append, List.nil_append]
  rw [unseen, if_pos (by decide), unseen, if_pos (by decide)]

/-- The learned mirrors are left alone, or a manifest's are merged into them. -/
theorem learned_rememberMirror (calendar : Calendar) (memory : MirrorMemory) (now : Int)
    (checked : Checked) : ∃ mirrors,
      (rememberMirror calendar memory now checked).learnedMirrors = memory.learnedMirrors ∨
        (rememberMirror calendar memory now checked).learnedMirrors =
          mergeMirrors memory.learnedMirrors mirrors := by
  refine ⟨checked.manifest.mirrors, ?_⟩
  rw [rememberMirror]
  by_cases hname : checked.mirror.name = ""
  · by_cases hnone : checked.manifest.mirrors = []
    · simp [hname, hnone]
    · simp [hname, hnone]
  · by_cases hnone : checked.manifest.mirrors = []
    · simp [hname, hnone]
    · simp [hname, hnone]

/-- **Step lemma**: a manifest adds to the end of what is planned. -/
theorem plan_rememberMirror (calendar : Calendar) (memory : MirrorMemory) (now later : Int)
    (checked : Checked) (at' : Int) : (plan calendar memory now).1 <+:
      (plan calendar (rememberMirror calendar memory at' checked) later).1 := by
  rw [plan_eq, plan_eq, List.prefix_append_right_inj]
  obtain ⟨mirrors, hsame | hmerged⟩ := learned_rememberMirror calendar memory at' checked
  · exact hsame ▸ List.prefix_refl _
  · rw [hmerged]
    unfold mergeMirrors
    rw [unseen_unseen (fun _ hname => absurd hname List.not_mem_nil), unseen_append]
    exact List.prefix_append _ _

/-- A name keeps its mirror. -/
theorem learnedAs_rememberMirror {name : String} {m : Mirror} (at' : Int)
    (h : learnedAs memory name = some m) :
    learnedAs (rememberMirror calendar memory at' checked) name = some m := by
  rw [learnedAs] at h ⊢
  obtain ⟨mirrors, hsame | hmerged⟩ := learned_rememberMirror calendar memory at' checked
  · rw [hsame, h]
  · rw [hmerged]
    unfold mergeMirrors
    rw [firstNamed_unseen, if_neg List.not_mem_nil, firstNamed_append, h]
    rfl

/-- **Run lemma**: a history adds to the end of what is planned. -/
theorem plan_remembered (memory : MirrorMemory) (later : List (Int × Checked)) (now now' : Int) :
    (plan calendar memory now).1 <+: (plan calendar (remembered calendar memory later) now').1 := by
  induction later generalizing memory now with
  | nil =>
    rw [plan_eq, plan_eq]
    exact List.prefix_refl _
  | cons event rest ih =>
    exact (plan_rememberMirror calendar memory now now' event.2 event.1).trans (ih _ _)

theorem learnedAs_remembered {name : String} {m : Mirror} (later : List (Int × Checked))
    (h : learnedAs memory name = some m) :
    learnedAs (remembered calendar memory later) name = some m := by
  induction later generalizing memory with
  | nil => exact h
  | cons event rest ih => exact ih (learnedAs_rememberMirror event.1 h)

theorem remembered_append (memory : MirrorMemory) (history later : List (Int × Checked)) :
    remembered calendar memory (history ++ later) =
      remembered calendar (remembered calendar memory history) later := List.foldl_append

/-- What is planned is guarded, whatever the memory. -/
theorem guarded_plan (calendar : Calendar) (memory : MirrorMemory) (now : Int) :
    Guarded memory (plan calendar memory now).1 := by
  constructor
  case shipped => exact ⟨_, plan_eq calendar memory now, fun m hm => mem_of_unseen hm⟩
  case distinct =>
    rw [plan_mirrors]
    exact mergeMirrors_pairwise _ _
  case secure =>
    intro m hm
    rw [plan_mirrors] at hm
    have hvalid := valid_of_merged hm
    rw [Mirror.valid, Bool.and_eq_true, Bool.and_eq_true] at hvalid
    exact ⟨hvalid.1.2, hvalid.2⟩

/-- **No manifest takes a mirror away**: after any history of them the mirrors compiled in come first,
    what was planned is planned still, a name keeps the mirror it was learned as, and merging a list
    again changes nothing. -/
theorem shipped_mirrors_stay (calendar : Calendar) (memory : MirrorMemory)
    (history later : List (Int × Checked)) (now now' : Int) :
    Guarded (remembered calendar memory history)
        (plan calendar (remembered calendar memory history) now).1 ∧
      (plan calendar (remembered calendar memory history) now).1 <+:
        (plan calendar (remembered calendar memory (history ++ later)) now').1 ∧
      (∀ name m, learnedAs (remembered calendar memory history) name = some m →
        learnedAs (remembered calendar memory (history ++ later)) name = some m) ∧
      ∀ known learned, mergeMirrors (mergeMirrors known learned) learned =
        mergeMirrors known learned := by
  refine ⟨guarded_plan _ _ _, ?_, ?_, mergeMirrors_again⟩
  · rw [remembered_append]
    exact plan_remembered _ _ _ _
  · intro name m h
    rw [remembered_append]
    exact learnedAs_remembered later h

end Histories

end MqStudio.Update
