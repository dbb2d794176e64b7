import ClosureMachine.Proofs.Ideal.Figures

/-!
# When the greatest depth grows

A machine remembers how many frames have waited at once, at most. Only a frame that is put on the control stack can
change that figure, and only two instructions put one there. A call does so when nothing can go wrong any more, so the
figure is right about the state after it. To enter a scope needs memory once more after its frame is there: if
that fails, the figure counts a frame of a scope in which nothing was done (`turn_peak`).
-/

set_option autoImplicit false

namespace ClosureMachine.Ideal

variable {α β : Type}

/-! ## Frames that are put on the stack -/

/-- If the action succeeds, the greatest depth takes account of the frames there are now. If it fails, it stays. -/
def CountsFrames (x : Act α) : Prop := ∀ s, match x s with
  | .ok _ s' => s'.peakDepth = s.peakDepth ∨ s'.peakDepth = max s.peakDepth s'.control.length
  | .error _ s' => s'.peakDepth = s.peakDepth

/-- The action succeeds and has nothing to do with frames. -/
def Calm (x : Act α) : Prop := ∀ s, ∃ a s', x s = .ok a s' ∧ s'.peakDepth = s.peakDepth ∧ s'.control = s.control

namespace CountsFrames

variable {x : Act α} {f : α → Act β}

theorem of_keepsPeak (hx : Keeps Figures.peakDepth x) : CountsFrames x := by
  intro s
  have hs := hx s
  cases hxs : x s with
  | ok a s' =>
    rw [hxs] at hs
    exact .inl hs
  | error e s' =>
    rw [hxs] at hs
    exact hs

theorem bind (hx : Keeps Figures.peakDepth x) (hf : ∀ a, CountsFrames (f a)) : CountsFrames (x >>= f) := by
  intro s
  have hs := hx s
  rw [Actions.bind_apply]
  cases hxs : x s with
  | ok a s' =>
    rw [hxs] at hs
    have hs : s'.peakDepth = s.peakDepth := hs
    rw [← hs]
    exact hf a s'
  | error e s' =>
    rw [hxs] at hs
    exact hs

theorem bind_calm (hx : CountsFrames x) (hf : ∀ a, Calm (f a)) : CountsFrames (x >>= f) := by
  intro s
  have hs := hx s
  rw [Actions.bind_apply]
  cases hxs : x s with
  | ok a s' =>
    rw [hxs] at hs
    obtain ⟨b, s'', hfs, hpeak, hcontrol⟩ := hf a s'
    show (match f a s' with
      | .ok _ s' => s'.peakDepth = s.peakDepth ∨ s'.peakDepth = max s.peakDepth s'.control.length
      | .error _ s' => s'.peakDepth = s.peakDepth)
    rw [hfs]
    show s''.peakDepth = s.peakDepth ∨ s''.peakDepth = max s.peakDepth s''.control.length
    rw [hpeak, hcontrol]
    exact hs
  | error e s' =>
    rw [hxs] at hs
    exact hs

theorem checked {c : Prop} [Decidable c] {e : Fault} (hx : CountsFrames x) :
    CountsFrames (if c then (MonadExcept.throw e : Act Unit) >>= fun _ => x else x) := by
  split
  · exact .bind (.throw e) fun _ => hx
  · exact hx

theorem pushFrame (frame : Loc) : CountsFrames (pushFrame frame) := fun _ => .inr rfl

theorem suspend (frame : Option Loc) : CountsFrames (suspend frame) := by
  cases frame with
  | none => exact .of_keepsPeak .leaveBlocks
  | some frame =>
    exact .bind .get fun _ => .bind (.lift _) fun _ => .bind .get fun _ => .bind (.lift _) fun _ => .pushFrame _

theorem enterClosure (n entry : Nat) (frame : Option Loc) (stack env : Loc) :
    CountsFrames (enterClosure n entry frame stack env) := by
  refine .bind (.moveArguments _ _) fun _ => .bind .pop fun _ => .bind (.lift _) fun _ => .bind (.lift _) fun _ => ?_
  -- nothing can fail once the frame is there
  exact .bind_calm (.suspend _) fun _ s => ⟨(), _, rfl, rfl, rfl⟩

theorem callClosure (room : Option Nat) (callee : Loc) (n : Nat) (tail : Bool) :
    CountsFrames (callClosure room callee n tail) := by
  exact .bind (.lift _) fun _ => .bind (.lift _) fun _ => .bind (.lift _) fun _ => .checked <|
    .bind (.fresh _ _) fun _ => .bind (.pin _) fun _ => .bind (.fresh _ _) fun _ => .bind (.pin _) fun _ =>
    .bind (.newFrame _ _) fun _ => .bind .unpin fun _ => .bind .unpin fun _ => .enterClosure _ _ _ _ _

theorem call (room : Option Nat) (n : Nat) (tail : Bool) : CountsFrames (call room n tail) := by
  refine .bind .get fun _ => .bind (.lift _) fun callee => .bind (.lift _) fun kind => ?_
  cases kind with
  | primitive => exact .of_keepsPeak (.callPrimitive _ _ _ _)
  | closure => exact .callClosure _ _ _ _
  | _ => exact .bind (.typeNameOf _) fun _ => .of_keepsPeak (.throw _)

end CountsFrames

/-! ## Turns -/

section

variable {room limit : Option Nat} {program : Program} {s : State}

/-- To enter a scope counts one frame more, if it gets as far as that. -/
theorem execute_enterScope_peak (room : Option Nat) (slots : Nat) (s : State) :
    (stateOf (execute room (.enterScope slots) s)).peakDepth = s.peakDepth ∨
      (stateOf (execute room (.enterScope slots) s)).peakDepth = max s.peakDepth (s.control.length + 1) := by
  have hrest : Keeps Figures.peakDepth (do
      let env ← fresh room (.environment (List.replicate slots none) none)
      setEnclosing env (← get).env
      setEnv env
      advance
      return (none : Option Answer)) :=
    .bind (.fresh _ _) fun _ => .bind .get fun _ => .bind (.lift _) fun _ =>
      .bind (.modify fun _ => rfl) fun _ => .bind (.modify fun _ => rfl) fun _ => .pure _
  rw [execute, enterScope]
  simp only [bind_assoc]
  simp only [Actions.bind_apply, fresh]
  cases allocate room s.roots (.blockFrame none) s.nodes with
  | error e => exact .inl rfl
  | ok nodes =>
    simp only [Actions.get_apply, lift_apply]
    cases setFrameEnv s.nodes.length s.env nodes with
    | error e nodes => exact .inl rfl
    | ok _ nodes =>
      exact .inr (hrest { s with
        nodes := nodes
        control := s.nodes.length :: s.control
        peakDepth := max s.peakDepth (s.control.length + 1) })

/-- All other instructions count frames when nothing can fail any more. -/
theorem countsFrames_execute (room : Option Nat) {i : Instruction} (hi : ∀ slots, i ≠ .enterScope slots) :
    CountsFrames (execute room i) := by
  cases i with
  | enterScope slots => exact absurd rfl (hi slots)
  | call n => exact .bind_calm (.call _ _ _) fun _ s => ⟨_, s, rfl, rfl, rfl⟩
  | tailCall n => exact .bind_calm (.call _ _ _) fun _ s => ⟨_, s, rfl, rfl, rfl⟩
  | _ => exact .of_keepsPeak (.execute room nofun nofun nofun)

/-- Only the last instruction gives an answer. -/
theorem execute_some {i : Instruction} {answer : Answer} {s' : State}
    (h : execute room i s = .ok (some answer) s') : i = .done := by
  have hnone : ∀ x : Act Unit, (do x; return (none : Option Answer)) s ≠ .ok (some answer) s' := by
    intro x hx
    rw [Actions.bind_apply] at hx
    cases hxs : x s <;> rw [hxs] at hx <;> cases hx
  cases i with
  | done => rfl
  | pop =>
    refine absurd ?_ (hnone (do let _ ← pop; advance))
    rw [← h, execute]
    simp only [bind_assoc]
  | _ => exact absurd h (hnone _)

theorem keepsPeak_countStep (limit : Option Nat) : Keeps Figures.peakDepth (countStep limit) := by
  refine .bind (.modify fun _ => rfl) fun _ => ?_
  cases limit with
  | none => exact .pure _
  | some limit => exact .bind .get fun s => .ite (.throw _) (.pure _)

theorem countStep_control {s' : State} (h : countStep limit s = .ok () s') : s'.control = s.control := by
  cases limit with
  | none =>
    cases h
    rfl
  | some limit =>
    simp only [countStep, Actions.bind_apply, Actions.modify_apply, Actions.get_apply] at h
    split at h
    · cases h
    · cases h
      rfl

/-- A turn leaves the greatest depth as it is, or enters a scope, or succeeds and counts the frames that wait after
it. -/
theorem turn_peak {outcome : Turn} {s' : State} (h : turn room limit program s = (outcome, s')) :
    s'.peakDepth = s.peakDepth ∨
    (∃ slots, program.code[s.pc]? = some (.enterScope slots) ∧
      s'.peakDepth = max s.peakDepth (s.control.length + 1)) ∨
    (outcome = .ok none ∧ s'.peakDepth = max s.peakDepth s'.control.length) := by
  unfold turn at h
  cases hi : program.code[s.pc]? with
  | none =>
    simp only [hi] at h
    cases h
    exact .inl rfl
  | some i =>
    simp only [hi, Actions.bind_apply] at h
    have hcount := keepsPeak_countStep limit s
    cases hc : countStep limit s with
    | error fault s₁ =>
      rw [hc] at h hcount
      cases h
      exact .inl hcount
    | ok _ s₁ =>
      simp only [hc] at h
      rw [hc] at hcount
      have hcount : s₁.peakDepth = s.peakDepth := hcount
      by_cases hscope : ∃ slots, i = .enterScope slots
      · obtain ⟨slots, rfl⟩ := hscope
        have hpeak := execute_enterScope_peak room slots s₁
        rw [hcount, countStep_control hc] at hpeak
        cases hx : execute room (.enterScope slots) s₁ with
        | error fault s₂ =>
          rw [hx] at h hpeak
          cases h
          exact hpeak.imp_right fun hpeak => .inl ⟨slots, rfl, hpeak⟩
        | ok answer s₂ =>
          rw [hx] at h hpeak
          cases h
          exact hpeak.imp_right fun hpeak => .inl ⟨slots, rfl, hpeak⟩
      · have hframes := countsFrames_execute room (fun slots hslots => hscope ⟨slots, hslots⟩) s₁
        cases hx : execute room i s₁ with
        | error fault s₂ =>
          rw [hx] at h hframes
          cases h
          exact .inl (hframes.trans hcount)
        | ok answer s₂ =>
          rw [hx] at h hframes
          cases h
          rw [← hcount]
          cases answer with
          | none => exact hframes.imp_right fun hpeak => .inr ⟨rfl, hpeak⟩
          | some answer =>
            -- the program is done, and its last instruction has nothing to do with frames
            obtain rfl := execute_some hx
            have hdone : Keeps Figures.peakDepth (execute room .done) := .execute room nofun nofun nofun
            have hkeeps := hdone s₁
            rw [hx] at hkeeps
            exact .inl hkeeps

end

end ClosureMachine.Ideal
