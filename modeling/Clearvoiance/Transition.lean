import Mathlib.Tactic

/-! Labelled partial step functions, their runs, and thread pools.
A label carries every choice the environment makes, so a run is determined by
its labels and can be evaluated.  A thread pool interleaves the atomic steps of
several calls over one shared state; each call is a program counter that either
moves to another program counter or finishes with a reply. -/
namespace Clearvoiance
namespace Transition

variable {σ α : Type*}

/-- Runs whose every step meets the side condition `ok` in the state it leaves. -/
inductive Run (step : σ → α → Option σ) (ok : σ → α → Prop) : σ → List α → σ → Prop
  | nil (s) : Run step ok s [] s
  | cons {s t u a as} : ok s a → step s a = some t → Run step ok t as u → Run step ok s (a :: as) u

/-- Evaluation of a list of labels; `none` as soon as a label is not enabled. -/
def exec (step : σ → α → Option σ) : σ → List α → Option σ
  | s, [] => some s
  | s, a :: as => (step s a).bind fun t => exec step t as

/-- The side condition along the evaluation of a list of labels. -/
def Along (step : σ → α → Option σ) (ok : σ → α → Prop) : σ → List α → Prop
  | _, [] => True
  | s, a :: as => ok s a ∧ match step s a with
    | none => False
    | some t => Along step ok t as

instance decidableAlong (step : σ → α → Option σ) (ok : σ → α → Prop)
    [∀ s a, Decidable (ok s a)] : ∀ s as, Decidable (Along step ok s as)
  | _, [] => inferInstanceAs (Decidable True)
  | s, a :: as =>
    match h : step s a with
    | none => .isFalse (by simp [Along,h])
    | some t =>
      have := decidableAlong step ok t as
      decidable_of_iff (ok s a ∧ Along step ok t as) (by simp [Along,h])

theorem exec_append {step : σ → α → Option σ} {s t : σ} {as bs : List α} (h : exec step s as = some t) :
    exec step s (as ++ bs) = exec step t bs := by
  induction as generalizing s with
  | nil =>
    cases h
    rfl
  | cons a as ih =>
    cases ha : step s a with
    | none => simp [exec,ha] at h
    | some u =>
      have hu : exec step u as = some t := by simpa [exec,ha] using h
      simpa [exec,ha] using ih hu

/-- Evaluation that also checks the side condition before each step. -/
def execIf (step : σ → α → Option σ) (ok : σ → α → Prop) [∀ s a, Decidable (ok s a)] : σ → List α → Option σ
  | s, [] => some s
  | s, a :: as => if ok s a then (step s a).bind fun t => execIf step ok t as else none

/-- A property that a step keeps exactly when it meets the side condition holds in all states of an
evaluation exactly when the side condition holds along it. -/
theorem forall_reached_iff {step : σ → α → Option σ} {ok : σ → α → Prop} (P : σ → Prop)
    (hstep : ∀ s a t, P s → step s a = some t → (P t ↔ ok s a)) {s t : σ} {as : List α}
    (he : exec step s as = some t) (hs : P s) :
    (∀ pre post u, as = pre ++ post → exec step s pre = some u → P u) ↔ Along step ok s as := by
  induction as generalizing s with
  | nil =>
    refine ⟨fun _ => trivial,fun _ pre post u has hu => ?_⟩
    obtain ⟨rfl,rfl⟩ := List.append_eq_nil_iff.mp has.symm
    cases hu
    exact hs
  | cons a as ih =>
    cases ha : step s a with
    | none => simp [exec,ha] at he
    | some m =>
      have hm : exec step m as = some t := by simpa [exec,ha] using he
      simp only [Along,ha]
      constructor
      · intro h
        have hP : P m := h [a] as m rfl (by simp [exec,ha])
        refine ⟨(hstep s a m hs ha).mp hP,(ih hm hP).mp fun pre post u has hu => ?_⟩
        exact h (a :: pre) post u (by simp [has]) (by simpa [exec,ha] using hu)
      · rintro ⟨hok,hal⟩ pre post u has hu
        cases pre with
        | nil =>
          cases hu
          exact hs
        | cons b pre =>
          obtain ⟨rfl,htail⟩ := List.cons.inj has
          exact (ih hm ((hstep s a m hs ha).mpr hok)).mpr hal pre post u htail (by simpa [exec,ha] using hu)

/-- A side condition that the labels meet in every state holds along their evaluation. -/
theorem along_of_forall {step : σ → α → Option σ} {ok : σ → α → Prop} {s t : σ} {as : List α}
    (h : ∀ a ∈ as, ∀ u, ok u a) (he : exec step s as = some t) : Along step ok s as := by
  induction as generalizing s with
  | nil => trivial
  | cons a as ih =>
    cases ha : step s a with
    | none => simp [exec,ha] at he
    | some m =>
      simp only [Along,ha]
      exact ⟨h a (by simp) s,ih (fun b hb => h b (by simp [hb])) (by simpa [exec,ha] using he)⟩

/-- A property that holds after a step exactly when it held before and the step met the side condition. -/
theorem holds_iff_along {step : σ → α → Option σ} {ok : σ → α → Prop} (I P : σ → Prop)
    (hstep : ∀ s a t, I s → step s a = some t → I t ∧ (P t ↔ P s ∧ ok s a)) {s t : σ} {as : List α}
    (he : exec step s as = some t) (hs : I s) : P t ↔ P s ∧ Along step ok s as := by
  induction as generalizing s with
  | nil =>
    cases he
    simp [Along]
  | cons a as ih =>
    cases ha : step s a with
    | none => simp [exec,ha] at he
    | some m =>
      obtain ⟨hm,hiff⟩ := hstep s a m hs ha
      rw [ih (by simpa [exec,ha] using he) hm,hiff]
      simp only [Along,ha,and_assoc]

/-- A part of the state that only the labels of its owner change depends on these labels alone. -/
theorem exec_part {step : σ → α → Option σ} {κ τ : Type*} [DecidableEq κ] {owner : α → κ} {part : σ → τ}
    {next : τ → α → τ} {k : κ}
    (h : ∀ s a t, step s a = some t → part t = if owner a = k then next (part s) a else part s)
    {s t : σ} {as : List α} (he : exec step s as = some t) :
    part t = (as.filter (owner · = k)).foldl next (part s) := by
  induction as generalizing s with
  | nil =>
    cases he
    rfl
  | cons a as ih =>
    cases ha : step s a with
    | none => simp [exec,ha] at he
    | some u =>
      rw [ih (by simpa [exec,ha] using he),h s a u ha]
      by_cases hk : owner a = k <;> simp [hk]

/-- What was put out in an evaluation was put out by one of its steps. -/
theorem exec_origin {step : σ → α → Option σ} {β : Type*} {out : σ → List β} {Q : σ → α → β → Prop}
    (h : ∀ s a t, step s a = some t → ∀ x ∈ out t, x ∈ out s ∨ Q s a x) {s t : σ} {as : List α}
    (he : exec step s as = some t) {x : β} (hx : x ∈ out t) :
    x ∈ out s ∨ ∃ pre a post u, as = pre ++ a :: post ∧ exec step s pre = some u ∧ Q u a x := by
  induction as generalizing s with
  | nil =>
    cases he
    exact .inl hx
  | cons a as ih =>
    cases ha : step s a with
    | none => simp [exec,ha] at he
    | some m =>
      rcases ih (by simpa [exec,ha] using he) with hm | ⟨pre,b,post,u,has,hu,hQ⟩
      · rcases h s a m ha x hm with hs | hQ
        · exact .inl hs
        · exact .inr ⟨[],a,as,s,rfl,rfl,hQ⟩
      · exact .inr ⟨a :: pre,b,post,u,by simp [has],by simpa [exec,ha] using hu,hQ⟩

namespace Run

variable {step : σ → α → Option σ} {ok : σ → α → Prop}

theorem mono {ok' : σ → α → Prop} (h : ∀ s a, ok s a → ok' s a) {s t : σ} {as : List α}
    (hr : Run step ok s as t) : Run step ok' s as t := by
  induction hr with
  | nil s => exact .nil s
  | cons hok hs _ ih => exact .cons (h _ _ hok) hs ih

/-- A side condition may be exchanged for one that follows from it under an invariant. -/
theorem under {ok' : σ → α → Prop} (I : σ → Prop) (hstep : ∀ s a t, I s → ok s a → step s a = some t → I t)
    (h : ∀ s a, I s → ok s a → ok' s a) {s t : σ} {as : List α} (hr : Run step ok s as t) (hs : I s) :
    Run step ok' s as t := by
  induction hr with
  | nil s => exact .nil s
  | cons hok he _ ih => exact .cons (h _ _ hs hok) he (ih (hstep _ _ _ hs hok he))

theorem of_append {s u : σ} {as bs : List α} (h : Run step ok s (as ++ bs) u) :
    ∃ t, Run step ok s as t ∧ Run step ok t bs u := by
  induction as generalizing s with
  | nil => exact ⟨s,.nil s,h⟩
  | cons a as ih =>
    cases h with
    | cons hok hs hr =>
      obtain ⟨t,h₁,h₂⟩ := ih hr
      exact ⟨t,.cons hok hs h₁,h₂⟩

theorem invariant (I : σ → Prop)
    (hstep : ∀ s a t, I s → ok s a → step s a = some t → I t) {s t : σ} {as : List α}
    (hr : Run step ok s as t) (hs : I s) : I t := by
  induction hr with
  | nil => exact hs
  | cons hok he _ ih => exact ih (hstep _ _ _ hs hok he)

theorem labelled {s t : σ} {as : List α} (hr : Run step ok s as t) :
    Run step (fun s a => a ∈ as ∧ ok s a) s as t := by
  induction hr with
  | nil s => exact .nil s
  | cons hok hs _ ih => exact .cons ⟨by simp,hok⟩ hs (ih.mono fun _ _ h => ⟨List.mem_cons_of_mem _ h.1,h.2⟩)

/-- Every step of a run is taken where a beginning of it leads to. -/
theorem reached {s t : σ} {as : List α} (hr : Run step ok s as t) :
    Run step (fun u a => (∃ pre, pre <+: as ∧ exec step s pre = some u) ∧ ok u a) s as t := by
  induction hr with
  | nil s => exact .nil s
  | @cons s m _ a _ hok hs _ ih =>
    refine .cons ⟨⟨[],List.nil_prefix,rfl⟩,hok⟩ hs (ih.mono ?_)
    rintro u b ⟨⟨pre,hpre,he⟩,hb⟩
    exact ⟨⟨a :: pre,List.cons_prefix_cons.mpr ⟨rfl,hpre⟩,by simpa [exec,hs] using he⟩,hb⟩

theorem exec_eq {s t : σ} {as : List α} (hr : Run step ok s as t) : exec step s as = some t := by
  induction hr with
  | nil => rfl
  | cons _ he _ ih => simp [exec,he,ih]

/-- A list of labels that evaluates under the side condition is a run. -/
theorem of_exec {s t : σ} {as : List α} (ha : Along step ok s as)
    (he : exec step s as = some t) : Run step ok s as t := by
  induction as generalizing s with
  | nil => cases he; exact .nil _
  | cons a as ih =>
    obtain ⟨hok,ha⟩ := ha
    cases hs : step s a with
    | none => simp [exec,hs] at he
    | some m =>
      simp only [hs] at ha
      exact .cons hok hs (ih ha (by simpa [exec,hs] using he))

theorem of_execIf [∀ s a, Decidable (ok s a)] {s t : σ} {as : List α} (he : execIf step ok s as = some t) :
    Run step ok s as t := by
  induction as generalizing s with
  | nil => cases he; exact .nil _
  | cons a as ih =>
    obtain ⟨hok,he⟩ := Option.ite_none_right_eq_some.mp he
    obtain ⟨m,hm,he⟩ := Option.bind_eq_some_iff.mp he
    exact .cons hok hm (ih he)

theorem of_exec_true {s t : σ} {as : List α} (he : exec step s as = some t) : Run step (fun _ _ => True) s as t := by
  induction as generalizing s with
  | nil => cases he; exact .nil _
  | cons a as ih =>
    cases hs : step s a with
    | none => simp [exec,hs] at he
    | some m => exact .cons trivial hs (ih (by simpa [exec,hs] using he))

/-- Two side conditions that agree in the states of an invariant hold along the same runs. -/
theorem along_congr {ok₁ ok₂ : σ → α → Prop} (I : σ → Prop)
    (hstep : ∀ s a t, I s → ok s a → ok₂ s a → step s a = some t → I t)
    (hiff : ∀ s a t, I s → step s a = some t → (ok₁ s a ↔ ok₂ s a)) {s t : σ} {as : List α}
    (hr : Run step ok s as t) (hs : I s) : Along step ok₁ s as ↔ Along step ok₂ s as := by
  induction hr with
  | nil => exact Iff.rfl
  | @cons s m _ a _ hok he _ ih =>
    simp only [Along,he]
    rw [hiff s a m hs he]
    exact and_congr_right fun h => ih (hstep s a m hs hok h he)

end Run

theorem split_at {l : List α} {i : ℕ} {x : α} (h : l[i]? = some x) : l = l.take i ++ x :: l.drop (i+1) := by
  obtain ⟨hi,hx⟩ := List.getElem?_eq_some_iff.mp h
  rw [← hx,← List.drop_eq_getElem_cons hi,List.take_append_drop]

/-- A shared state, the calls in flight, and the replies given so far, newest first. -/
structure Pool (σ π ρ : Type*) where
  shared : σ
  threads : List π
  replies : List ρ

/-- `invoke c` admits the call `c`, `advance i e` runs the next atomic step of call `i`. -/
inductive Act (κ ε : Type*)
  | invoke (c : κ)
  | advance (i : ℕ) (e : ε)
  deriving DecidableEq

variable {κ π ε ρ : Type*}

def Pool.step (entry : κ → π) (advance : ε → σ → π → σ × (π ⊕ ρ)) (s : Pool σ π ρ) :
    Act κ ε → Option (Pool σ π ρ)
  | .invoke c => some { s with threads := s.threads ++ [entry c] }
  | .advance i e =>
    match s.threads[i]? with
    | none => none
    | some p =>
      match advance e s.shared p with
      | (σ',.inl p') => some ⟨σ',s.threads.set i p',s.replies⟩
      | (σ',.inr r) => some ⟨σ',s.threads.eraseIdx i,r :: s.replies⟩

namespace Pool

variable {entry : κ → π} {advance : ε → σ → π → σ × (π ⊕ ρ)}

/-- Everything a scheduling decision can do: the moving call is split off from the
others, which keep their program counters. -/
theorem step_cases {s t : Pool σ π ρ} {a : Act κ ε} (h : s.step entry advance a = some t) :
    (∃ c, a = .invoke c ∧ t = { s with threads := s.threads ++ [entry c] }) ∨
    (∃ i e l r p σ' p', a = .advance i e ∧ s.threads = l ++ p :: r ∧ s.threads[i]? = some p ∧
      advance e s.shared p = (σ',.inl p') ∧ t = ⟨σ',l ++ p' :: r,s.replies⟩) ∨
    (∃ i e l r p σ' v, a = .advance i e ∧ s.threads = l ++ p :: r ∧ s.threads[i]? = some p ∧
      advance e s.shared p = (σ',.inr v) ∧ t = ⟨σ',l ++ r,v :: s.replies⟩) := by
  cases a with
  | invoke c => exact .inl ⟨c,rfl,by simpa [step] using h.symm⟩
  | advance i e =>
    cases hp : s.threads[i]? with
    | none => simp [step,hp] at h
    | some p =>
      obtain ⟨hi,-⟩ := List.getElem?_eq_some_iff.mp hp
      cases hadv : advance e s.shared p with
      | mk σ' o =>
        cases o with
        | inl p' =>
          refine .inr (.inl ⟨i,e,_,_,p,σ',p',rfl,split_at hp,hp,hadv,?_⟩)
          simp only [step,hp,hadv,Option.some.injEq] at h
          rw [← h,List.set_eq_take_append_cons_drop,if_pos hi]
        | inr v =>
          refine .inr (.inr ⟨i,e,_,_,p,σ',v,rfl,split_at hp,hp,hadv,?_⟩)
          simp only [step,hp,hadv,Option.some.injEq] at h
          rw [← h,List.eraseIdx_eq_take_drop_succ]

/-- Invariants of a pool in three parts: `G` speaks about the shared state, the replies and
which calls are in flight, `T` about one call in flight, and the symmetric `C` about two. -/
structure Holds (G : σ → List ρ → Set π → Prop) (T : π → σ → List ρ → Prop) (C : π → π → Prop)
    (s : Pool σ π ρ) : Prop where
  shared : G s.shared s.replies {p | p ∈ s.threads}
  thread : ∀ p ∈ s.threads, T p s.shared s.replies
  pair : s.threads.Pairwise C

theorem pairwise_split {C : π → π → Prop} (hC : ∀ p q, C p q → C q p) {l r : List π} {p : π} :
    (l ++ p :: r).Pairwise C ↔ (∀ q ∈ l ++ r, C p q) ∧ (l ++ r).Pairwise C := by
  rw [List.pairwise_middle (fun {x y} h => hC x y h),List.pairwise_cons]

/-- The step obligations of a three-part invariant.  Each obligation sees one moving call `p`
and the list `o` of the others. -/
theorem run_holds {ok : Pool σ π ρ → Act κ ε → Prop} {G : σ → List ρ → Set π → Prop}
    {T : π → σ → List ρ → Prop} {C : π → π → Prop} (hC : ∀ p q, C p q → C q p)
    (hinvoke : ∀ s c, ok s (.invoke c) → Holds G T C s →
      G s.shared s.replies (insert (entry c) {p | p ∈ s.threads}) ∧
      T (entry c) s.shared s.replies ∧ ∀ q ∈ s.threads, C (entry c) q)
    (hmove : ∀ s i e p o σ' p', ok s (.advance i e) → s.threads[i]? = some p →
      s.threads.Perm (p :: o) → advance e s.shared p = (σ',.inl p') →
      G s.shared s.replies (insert p {q | q ∈ o}) → T p s.shared s.replies →
      (∀ q ∈ o, T q s.shared s.replies) → (∀ q ∈ o, C p q) →
      G σ' s.replies (insert p' {q | q ∈ o}) ∧ T p' σ' s.replies ∧
      (∀ q ∈ o, T q σ' s.replies) ∧ ∀ q ∈ o, C p' q)
    (hreply : ∀ s i e p o σ' v, ok s (.advance i e) → s.threads[i]? = some p →
      s.threads.Perm (p :: o) → advance e s.shared p = (σ',.inr v) →
      G s.shared s.replies (insert p {q | q ∈ o}) → T p s.shared s.replies →
      (∀ q ∈ o, T q s.shared s.replies) → (∀ q ∈ o, C p q) →
      G σ' (v :: s.replies) {q | q ∈ o} ∧ ∀ q ∈ o, T q σ' (v :: s.replies))
    {s t : Pool σ π ρ} {as : List (Act κ ε)} (hr : Run (step entry advance) ok s as t)
    (hs : Holds G T C s) : Holds G T C t := by
  refine hr.invariant (Holds G T C) ?_ hs
  intro s a t hs hok hst
  rcases step_cases hst with ⟨c,rfl,rfl⟩ | ⟨i,e,l,r,p,σ',p',rfl,hl,hp,hadv,rfl⟩ |
    ⟨i,e,l,r,p,σ',v,rfl,hl,hp,hadv,rfl⟩
  · obtain ⟨hG,hT,hc⟩ := hinvoke s c hok hs
    have hset : {p | p ∈ s.threads ++ [entry c]} = insert (entry c) {p | p ∈ s.threads} := by
      ext q
      simp [or_comm]
    refine ⟨hset ▸ hG,fun q hq => ?_,?_⟩
    · rcases List.mem_append.mp hq with hq | hq
      · exact hs.thread q hq
      · rw [List.mem_singleton.mp hq]; exact hT
    · rw [pairwise_split hC]
      simpa using ⟨hc,hs.pair⟩
  all_goals
    have hT := hs.thread
    have hpair := hs.pair
    have hG := hs.shared
    rw [hl] at hT hpair hG
    have hset : ∀ q, {x | x ∈ l ++ q :: r} = insert q {x | x ∈ l ++ r} := by
      intro q
      ext x
      simp [or_left_comm]
    rw [hset p] at hG
    obtain ⟨hc,hpair⟩ := (pairwise_split hC).mp hpair
    have hTo : ∀ q ∈ l ++ r, T q s.shared s.replies := by
      intro q hq
      apply hT
      rcases List.mem_append.mp hq with hq | hq <;> simp [hq]
    have hperm : s.threads.Perm (p :: (l ++ r)) := hl ▸ List.perm_middle
  · obtain ⟨hG,hp',ho,hc'⟩ := hmove s i e p _ σ' p' hok hp hperm hadv hG (hT p (by simp)) hTo hc
    refine ⟨(hset p').symm ▸ hG,fun q hq => ?_,(pairwise_split hC).mpr ⟨hc',hpair⟩⟩
    rcases List.mem_cons.mp (List.perm_middle.subset hq) with rfl | hq
    · exact hp'
    · exact ho q hq
  · obtain ⟨hG,ho⟩ := hreply s i e p _ σ' v hok hp hperm hadv hG (hT p (by simp)) hTo hc
    exact ⟨hG,ho,hpair⟩

/-- Under an invariant, what every reply says that a step can give, all later replies say. -/
theorem run_replies {ok : Pool σ π ρ → Act κ ε → Prop} (I : Pool σ π ρ → Prop) (R : ρ → Prop)
    (hstep : ∀ s a t, I s → ok s a → s.step entry advance a = some t → I t)
    (hreply : ∀ s i e p σ' v, I s → ok s (.advance i e) → s.threads[i]? = some p →
      advance e s.shared p = (σ',.inr v) → R v)
    {s t : Pool σ π ρ} {as : List (Act κ ε)} (hr : Run (step entry advance) ok s as t) (hs : I s) :
    ∃ new, t.replies = new ++ s.replies ∧ ∀ v ∈ new, R v := by
  induction hr with
  | nil => exact ⟨[],rfl,by simp⟩
  | @cons s m _ a _ hok he _ ih =>
    obtain ⟨new,hnew,hR⟩ := ih (hstep s a m hs hok he)
    rcases step_cases he with ⟨c,rfl,rfl⟩ | ⟨i,e,l,r,p,σ',p',rfl,-,-,-,rfl⟩ | ⟨i,e,l,r,p,σ',v,rfl,-,hp,hadv,rfl⟩
    · exact ⟨new,hnew,hR⟩
    · exact ⟨new,hnew,hR⟩
    · refine ⟨new ++ [v],by simpa using hnew,fun w hw => ?_⟩
      rcases List.mem_append.mp hw with hw | hw
      · exact hR w hw
      · exact List.mem_singleton.mp hw ▸ hreply s i e p σ' v hs hok hp hadv

end Pool

end Transition
end Clearvoiance
