import Curlinho.Calls.Async
import Mathlib.Data.List.Nodup

/-! # Programs of calls

A caller makes one call after another, by any of the entry points, and hands them option
objects that it keeps in variables. `Get` moves from every variable that is not const,
the others only from those they are told to. A program makes the calls that its text says
exactly if no variable that had something to lose is named again after it was taken.
-/
namespace Curlinho
open Foundation

abbrev Variables := ℕ → OptionObject

/-- A call in a program, with the variables that it names, and how. -/
structure Statement where
  entry : Entry
  url : Url
  uses : List (ℕ × ValueCategory)
  nodup : (uses.map Prod.fst).Nodup
  circumstances : Circumstances

/-- Whether the entry point moves from an argument of the category. -/
def Entry.takes : Entry → ValueCategory → Bool
  | .get, .lvalue => true
  | _, .rvalue => true
  | _, _ => false

namespace Statement

def args (st : Statement) (σ : Variables) : List Arg := st.uses.map (fun u => ⟨u.2, σ u.1⟩)

def job (st : Statement) (σ : Variables) : Job := ⟨st.entry, st.url, st.args σ, st.circumstances⟩

def takes (st : Statement) (v : ℕ) : Bool := st.uses.any (fun u => u.1 = v && st.entry.takes u.2)

variable (platform : Platform) (narrow : Int → Int)

def after (st : Statement) (σ : Variables) : Variables := fun v =>
  (((st.uses.map Prod.fst).zip ((st.job σ).call platform narrow).objects).lookup v).getD (σ v)

end Statement

section
variable (platform : Platform) (narrow : Int → Int)

def valuesAfter (σ : Variables) (program : List Statement) : Variables :=
  program.foldl (fun σ st => st.after platform narrow σ) σ

def jobsMade (σ : Variables) : List Statement → List Job
  | [] => []
  | st :: program => st.job σ :: jobsMade (st.after platform narrow σ) program

end

variable {platform : Platform} {narrow : Int → Int}

theorem OptionObject.movedFrom_movedFrom (o : OptionObject) :
    o.movedFrom.movedFrom = o.movedFrom := by
  cases o <;> rfl

theorem handedOver_remaining (arg : Arg) :
    arg.handedOver arg.remaining =
      if arg.category = .rvalue then arg.object.movedFrom else arg.object := by
  obtain ⟨category, object⟩ := arg
  cases object with
  | parameters p => cases category <;> rfl
  | _ => rfl

theorem Job.objects_eq (job : Job) :
    (job.call platform narrow).objects = job.args.map (fun arg =>
      if job.entry.takes arg.category then arg.object.movedFrom else arg.object) := by
  obtain ⟨entry, url, args, c⟩ := job
  cases entry with
  | get =>
    obtain ⟨-, -, hobjects⟩ := @getIntern_spec platform url (args.map Arg.move) c.first
    simp only [Job.call, Curlinho.get, hobjects]
    rw [zipWith_handedOver, List.map_map]
    refine List.map_congr_left (fun arg _ => (handedOver_remaining arg.move).trans ?_)
    obtain ⟨category, object⟩ := arg
    cases category <;> rfl
  | post body =>
    obtain ⟨-, -, hobjects⟩ := @postIntern_spec platform url body args c.first
    simp only [Job.call, Curlinho.post, hobjects]
    rw [zipWith_handedOver]
    refine List.map_congr_left (fun arg _ => (handedOver_remaining arg).trans ?_)
    obtain ⟨category, object⟩ := arg
    cases category <;> rfl
  | _ =>
    refine List.map_congr_left (fun arg _ => ?_)
    obtain ⟨category, object⟩ := arg
    cases category <;> rfl

namespace Statement

theorem lookup_zip (uses : List (ℕ × ValueCategory)) (f : ℕ × ValueCategory → OptionObject)
    (v : ℕ) :
    ((uses.map Prod.fst).zip (uses.map f)).lookup v = (uses.find? (fun u => u.1 = v)).map f := by
  induction uses with
  | nil => rfl
  | cons u uses ih =>
    rw [List.map_cons, List.map_cons, List.zip_cons_cons, List.lookup_cons, List.find?_cons]
    by_cases hu : u.1 = v
    · simp [hu]
    · have hv : (v == u.1) = false := beq_eq_false_iff_ne.mpr (Ne.symm hu)
      simp [hv, hu, ih]

theorem after_eq (st : Statement) (σ : Variables) (v : ℕ) :
    st.after platform narrow σ v = if st.takes v then (σ v).movedFrom else σ v := by
  have hobjects : ((st.job σ).call platform narrow).objects = st.uses.map (fun u =>
      if st.entry.takes u.2 then (σ u.1).movedFrom else σ u.1) := by
    rw [Job.objects_eq, job, args, List.map_map]
    rfl
  rw [after, hobjects, lookup_zip]
  cases hfind : st.uses.find? (fun u => u.1 = v) with
  | none =>
    have hnone : st.takes v = false := by
      rw [takes, List.any_eq_false]
      intro u hu
      have hne := List.find?_eq_none.mp hfind u hu
      simp only [decide_eq_true_eq] at hne
      simp [hne]
    rw [hnone]
    rfl
  | some u =>
    have hv : u.1 = v := by simpa using List.find?_some hfind
    have hmem := List.mem_of_find?_eq_some hfind
    -- no other use names the variable
    have hunique : ∀ u' ∈ st.uses, u'.1 = v → u' = u := fun u' hu' hv' =>
      List.inj_on_of_nodup_map st.nodup hu' hmem (hv'.trans hv.symm)
    have htakes : st.takes v = st.entry.takes u.2 := by
      rw [Bool.eq_iff_iff, takes, List.any_eq_true]
      constructor
      · rintro ⟨u', hu', htaken⟩
        rw [Bool.and_eq_true, decide_eq_true_iff] at htaken
        exact hunique u' hu' htaken.1 ▸ htaken.2
      · intro htaken
        exact ⟨u, hmem, by rw [htaken, Bool.and_true, decide_eq_true_iff, hv]⟩
    rw [htakes, Option.map_some, Option.getD_some, hv]

end Statement

theorem valuesAfter_eq (σ : Variables) (program : List Statement) (v : ℕ) :
    valuesAfter platform narrow σ program v =
      if program.any (fun st => st.takes v) then (σ v).movedFrom else σ v := by
  induction program using List.reverseRecOn with
  | nil => rfl
  | append_singleton program st ih =>
    rw [valuesAfter, List.foldl_append, List.foldl_cons, List.foldl_nil, ← valuesAfter,
      Statement.after_eq, ih, List.any_append, List.any_cons, List.any_nil, Bool.or_false]
    cases program.any (fun st => st.takes v) <;> cases st.takes v <;>
      simp [OptionObject.movedFrom_movedFrom]

/-- A later statement finds what an earlier one left of its variables. -/
def Statement.Spares (σ : Variables) (st later : Statement) : Prop :=
  ∀ u ∈ later.uses, st.takes u.1 = true → (σ u.1).movedFrom = σ u.1

theorem job_valuesAfter_iff (σ : Variables) (before : List Statement) (st : Statement) :
    st.job (valuesAfter platform narrow σ before) = st.job σ ↔
      ∀ earlier ∈ before, earlier.Spares σ st := by
  rw [Statement.job, Statement.job, Job.mk.injEq, Statement.args, Statement.args,
    List.map_inj_left]
  simp only [true_and, and_true, Arg.mk.injEq, valuesAfter_eq]
  constructor
  · intro h earlier hearlier u hu htaken
    have hany : before.any (fun st => st.takes u.1) = true :=
      List.any_eq_true.mpr ⟨earlier, hearlier, htaken⟩
    simpa [hany] using h u hu
  · intro h u hu
    split
    · next hany =>
      obtain ⟨earlier, hearlier, htaken⟩ := List.any_eq_true.mp hany
      exact h earlier hearlier u hu htaken
    · rfl

theorem jobsMade_valuesAfter_iff (σ : Variables) (before program : List Statement) :
    jobsMade platform narrow (valuesAfter platform narrow σ before) program =
        program.map (fun st => st.job σ) ↔
      (∀ earlier ∈ before, ∀ st ∈ program, earlier.Spares σ st) ∧
        program.Pairwise (fun st later => st.Spares σ later) := by
  induction program generalizing before with
  | nil => simp [jobsMade]
  | cons st program ih =>
    have hnext : st.after platform narrow (valuesAfter platform narrow σ before) =
        valuesAfter platform narrow σ (before ++ [st]) := by
      rw [valuesAfter, valuesAfter, List.foldl_append, List.foldl_cons, List.foldl_nil]
    rw [jobsMade, List.map_cons, List.cons_eq_cons, hnext, ih, job_valuesAfter_iff,
      List.pairwise_cons]
    simp only [List.mem_append, List.mem_cons, or_imp, forall_and, forall_eq]
    tauto

/-- A program makes the calls it says, each with what its variables held at first, exactly
if no call takes anything from a variable that a later one names. -/
theorem jobsMade_eq_iff (σ : Variables) (program : List Statement) :
    jobsMade platform narrow σ program = program.map (fun st => st.job σ) ↔
      program.Pairwise (fun st later => st.Spares σ later) := by
  have h : jobsMade platform narrow (valuesAfter platform narrow σ []) program = _ ↔ _ :=
    jobsMade_valuesAfter_iff σ [] program
  simpa [valuesAfter] using h

def oneQuery : Variables := fun _ => .parameters (Parameters.ofList [⟨str ['q'], str ['1']⟩])

def callOf (entry : Entry) : Statement where
  entry := entry
  url := str ['h']
  uses := [(0, .lvalue)]
  nodup := by decide
  circumstances := ⟨fun _ => 0, {}, fun _ => {}⟩

/-- A variable may be named again after `PostAsync`, but not after `Get`. -/
theorem jobsMade_eq_iff_two :
    jobsMade .linux id oneQuery [callOf (.postAsync []), callOf .get] =
        [callOf (.postAsync []), callOf .get].map (fun st => st.job oneQuery) ∧
      jobsMade .linux id oneQuery [callOf .get, callOf (.postAsync [])] ≠
        [callOf .get, callOf (.postAsync [])].map (fun st => st.job oneQuery) := by
  constructor
  · refine (jobsMade_eq_iff _ _).mpr (List.pairwise_pair.mpr fun u hu htaken => ?_)
    obtain rfl := List.mem_singleton.mp hu
    cases htaken
  · intro hmade
    have hspares := List.pairwise_pair.mp ((jobsMade_eq_iff _ _).mp hmade)
    have hempty := hspares (0, .lvalue) List.mem_cons_self rfl
    exact absurd (OptionObject.parameters.inj hempty) (by decide)

end Curlinho
