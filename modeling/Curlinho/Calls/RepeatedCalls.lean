import Curlinho.Calls.Calls

/-! # Consecutive calls with the same variables

A caller keeps option objects in variables of its own and makes the same call several
times. `Post` forwards the variables and leaves them alone; `Get` moves from them.
-/
namespace Curlinho
open Foundation

inductive Verb
  | get
  | post (body : Body)

/-- What libcurl and the random generator contribute to one call. -/
structure Circumstances where
  draw : ℕ → Int
  first : Transfer
  retries : ℕ → Transfer

section
variable (platform : Platform) (narrow : Int → Int)

/-- A call with the caller's non-const variables as its options. -/
def callWith (verb : Verb) (url : Url) (vars : List OptionObject) (c : Circumstances) : Call :=
  let args := vars.map (Arg.mk .lvalue)
  match verb with
  | .get => get platform narrow c.draw url args c.first c.retries
  | .post body => post platform narrow c.draw url body args c.first c.retries

def variablesAfter (verb : Verb) (url : Url) (vars : List OptionObject)
    (cs : ℕ → Circumstances) : ℕ → List OptionObject
  | 0 => vars
  | n + 1 =>
    (callWith platform narrow verb url (variablesAfter verb url vars cs n) (cs n)).objects

def nthCall (verb : Verb) (url : Url) (vars : List OptionObject) (cs : ℕ → Circumstances)
    (i : ℕ) : Call :=
  callWith platform narrow verb url (variablesAfter platform narrow verb url vars cs i) (cs i)

/-- Each of `n` calls leaves the variables as they were, and sends the same first request. -/
def Repeatable (verb : Verb) (url : Url) (vars : List OptionObject) (cs : ℕ → Circumstances)
    (n : ℕ) : Prop :=
  (∀ i < n, variablesAfter platform narrow verb url vars cs (i + 1) =
      variablesAfter platform narrow verb url vars cs i) ∧
    ∀ i < n, (nthCall platform narrow verb url vars cs i).first.request =
      (nthCall platform narrow verb url vars cs 0).first.request

end

variable {platform : Platform} {narrow : Int → Int}

@[simp] theorem zipWith_handedOver (args : List Arg) :
    List.zipWith Arg.handedOver args (args.map Arg.remaining) =
      args.map (fun arg => arg.handedOver arg.remaining) := by
  rw [List.zipWith_map_right, List.zipWith_self]

theorem objects_callWith_get (url : Url) (vars : List OptionObject) (c : Circumstances) :
    (callWith platform narrow .get url vars c).objects =
      vars.map OptionObject.movedFrom := by
  obtain ⟨-, -, hobjects⟩ :=
    @getIntern_spec platform url ((vars.map (Arg.mk .lvalue)).map Arg.move) c.first
  simp only [callWith, get, hobjects]
  rw [zipWith_handedOver, List.map_map, List.map_map]
  refine List.map_congr_left (fun v _ => ?_)
  cases v with
  | parameters p => rfl
  | _ => rfl

theorem objects_callWith_post (body : Body) (url : Url) (vars : List OptionObject)
    (c : Circumstances) :
    (callWith platform narrow (.post body) url vars c).objects = vars := by
  obtain ⟨-, -, hobjects⟩ :=
    @postIntern_spec platform url body (vars.map (Arg.mk .lvalue)) c.first
  simp only [callWith, post, hobjects]
  rw [zipWith_handedOver, List.map_map]
  refine (List.map_congr_left (fun v _ => ?_)).trans (List.map_id vars)
  cases v with
  | parameters p => rfl
  | _ => rfl

theorem request_callWith (verb : Verb) (url : Url) (vars : List OptionObject)
    (c c' : Circumstances) :
    (callWith platform narrow verb url vars c).first.request =
      (callWith platform narrow verb url vars c').first.request := by
  cases verb with
  | get =>
    have h := fun t => (@getIntern_spec platform url
      ((vars.map (Arg.mk .lvalue)).map Arg.move) t).1
    exact (h c.first).trans (h c'.first).symm
  | post body =>
    have h := fun t => (@postIntern_spec platform url body (vars.map (Arg.mk .lvalue)) t).1
    exact (h c.first).trans (h c'.first).symm

theorem variablesAfter_eq {verb : Verb} {url : Url} {vars : List OptionObject}
    (h : ∀ c, (callWith platform narrow verb url vars c).objects = vars)
    (cs : ℕ → Circumstances) (n : ℕ) :
    variablesAfter platform narrow verb url vars cs n = vars := by
  induction n with
  | zero => rfl
  | succ n ih => rw [variablesAfter, ih, h]

theorem repeatable_of_objects_eq {verb : Verb} {url : Url} {vars : List OptionObject}
    (h : ∀ c, (callWith platform narrow verb url vars c).objects = vars)
    (cs : ℕ → Circumstances) (n : ℕ) : Repeatable platform narrow verb url vars cs n := by
  have hsame := variablesAfter_eq h cs
  refine ⟨fun i _ => (hsame (i + 1)).trans (hsame i).symm, fun i _ => ?_⟩
  rw [nthCall, nthCall, hsame, hsame]
  exact request_callWith verb url vars (cs i) (cs 0)

/-- Consecutive calls repeat exactly if they are calls of `Post`, or there are none, or the
variables hold nothing that a move could take. -/
theorem repeatable_iff (verb : Verb) (url : Url) (vars : List OptionObject)
    (cs : ℕ → Circumstances) (n : ℕ) :
    Repeatable platform narrow verb url vars cs n ↔
      verb ≠ .get ∨ n = 0 ∨ ∀ v ∈ vars, v.movedFrom = v := by
  cases verb with
  | post body =>
    have h := repeatable_of_objects_eq
      (fun c => @objects_callWith_post platform narrow body url vars c) cs n
    exact ⟨fun _ => .inl (fun hget => by cases hget), fun _ => h⟩
  | get =>
    constructor
    · intro h
      cases n with
      | zero => exact .inr (.inl rfl)
      | succ n =>
        have hfirst : vars.map OptionObject.movedFrom = vars.map id := by
          rw [List.map_id, ← objects_callWith_get url]
          exact h.1 0 (Nat.succ_pos n)
        exact .inr (.inr (List.map_inj_left.mp hfirst))
    · intro h
      cases h with
      | inl hget => exact absurd rfl hget
      | inr h =>
        cases h with
        | inl hn =>
          subst hn
          exact ⟨fun i hi => absurd hi (Nat.not_lt_zero i), fun i hi => absurd hi (Nat.not_lt_zero i)⟩
        | inr hmoved =>
          have hmap : vars.map OptionObject.movedFrom = vars :=
            (List.map_congr_left hmoved).trans (List.map_id vars)
          exact repeatable_of_objects_eq (fun c => (objects_callWith_get url vars c).trans hmap)
            cs n

theorem not_repeatable : ¬ Repeatable ⟨false, true, [], true⟩ id .get (str ['h'])
    [.parameters (Parameters.ofList [⟨str ['q'], str ['1']⟩])]
    (fun _ => ⟨fun _ => 0, {}, fun _ => {}⟩) 2 := by
  intro h
  exact absurd (h.2 1 (by decide)) (by decide)

end Curlinho
