import Clearvoiance.ReplayConservation

/-! Which events of a session a run dispatches, and when.  The session is sorted by time, filtered to the
window in place, on the array that is being read, and the offsets from the first event that is left are
divided by the effective speedup.  The speedup is a rational number. -/
namespace Clearvoiance
namespace Replay

open Transition

variable {π : Type}

/-- `for _, ev := range buffered { if keep { filtered = append(filtered, ev) } }` where `filtered` starts
as `buffered[:0]`: `k` elements are still to be read, and `w` were kept. -/
def compact (keep : Event π → Bool) (backing : List (Event π)) (w : ℕ) : ℕ → List (Event π)
  | 0 => backing.take w
  | k+1 =>
    match backing[backing.length-(k+1)]? with
    | some ev => if keep ev then compact keep (backing.set w ev) (w+1) k else compact keep backing w k
    | none => backing.take w

def window (cfg : Config π) (buffered : List (Event π)) : List (Event π) :=
  match buffered with
  | [] => []
  | first :: _ =>
    if 0 < cfg.windowStartNs ∨ 0 < cfg.windowEndNs then
      compact (inWindow cfg first.timestampNs) buffered 0 buffered.length
    else buffered

/-- When the events are due, counted from the start of the replay. -/
def fireOffsets (cfg : Config π) (buffered : List (Event π)) : List ℚ :=
  match buffered with
  | [] => []
  | first :: _ => buffered.map fun ev => ((ev.timestampNs-first.timestampNs : ℤ) : ℚ)/effectiveSpeedup cfg buffered

/-- The events that a dispatcher handles, each with the time at which it is due. -/
def plan (cfg : Config π) (buffered : List (Event π)) : List (Event π × ℤ) :=
  ((buffered.zip (fireOffsets cfg buffered)).filter fun x => canDispatch cfg x.1).map fun x =>
    (x.1,cfg.replayStartNs+duration x.2)

/-- The loop keeps what a filter keeps: where it writes lies behind where it reads. -/
theorem compact_eq (keep : Event π → Bool) (k : ℕ) (backing original : List (Event π)) (w : ℕ)
    (hlen : backing.length = original.length) (hk : k ≤ original.length) (hw : w ≤ original.length-k)
    (hkept : backing.take w = (original.take (original.length-k)).filter keep)
    (hrest : backing.drop (original.length-k) = original.drop (original.length-k)) :
    compact keep backing w k = original.filter keep := by
  induction k generalizing backing w with
  | zero => simpa [compact] using hkept
  | succ k ih =>
    have hlt : original.length-(k+1) < original.length := by omega
    have hget : backing[original.length-(k+1)]? = some original[original.length-(k+1)] := by
      have hhead := congrArg List.head? hrest
      rwa [List.head?_drop,List.head?_drop,List.getElem?_eq_getElem hlt] at hhead
    have hnext : original.length-k = original.length-(k+1)+1 := by omega
    have htake : original.take (original.length-k) =
        original.take (original.length-(k+1)) ++ [original[original.length-(k+1)]] := by
      rw [hnext,List.take_succ_eq_append_getElem hlt]
    have hdrop : backing.drop (original.length-k) = original.drop (original.length-k) := by
      rw [hnext,← List.drop_drop,← List.drop_drop,hrest]
    simp only [compact,hlen,hget]
    split
    · rename_i hkeep
      refine ih _ (w+1) (by simpa using hlen) (by omega) (by omega) ?_ ?_
      · rw [List.take_succ_eq_append_getElem (by simp; omega),List.getElem_set_self,List.take_set_of_le (le_refl w),
          hkept,htake,List.filter_append,List.filter_singleton,hkeep,cond_true]
      · rw [List.drop_set_of_lt (by omega),hdrop]
    · rename_i hskip
      refine ih backing w hlen (by omega) (by omega) ?_ hdrop
      rw [hkept,htake,List.filter_append,List.filter_singleton,Bool.eq_false_iff.mpr hskip,cond_false,List.append_nil]

theorem window_byTime (cfg : Config π) (evs : List (Event π)) : window cfg (byTime evs) = selected cfg evs := by
  unfold window selected
  cases byTime evs with
  | nil => rfl
  | cons first rest =>
    simp only
    split
    · exact compact_eq _ _ _ _ 0 rfl (le_refl _) (by omega) (by simp) rfl
    · rfl

/-- The offset lies in the window; an end of zero or less leaves it open. -/
def InWindow (cfg : Config π) (offset : ℤ) : Prop :=
  cfg.windowStartNs ≤ offset ∧ (0 < cfg.windowEndNs → offset ≤ cfg.windowEndNs)

instance (cfg : Config π) (offset : ℤ) : Decidable (InWindow cfg offset) := inferInstanceAs (Decidable (_ ∧ _))

theorem inWindow_iff (cfg : Config π) (start : ℤ) (ev : Event π) :
    inWindow cfg start ev = true ↔ InWindow cfg (ev.timestampNs-start) := by
  simp only [inWindow,InWindow,Bool.and_eq_true,decide_eq_true_eq,Bool.not_eq_true',Bool.and_eq_false_iff,
    decide_eq_false_iff_not,not_lt]
  refine and_congr_right fun _ => ⟨fun h hend => ?_,fun h => ?_⟩
  · rcases h with hle | hle
    · omega
    · exact hle
  · by_cases hend : 0 < cfg.windowEndNs
    · exact .inr (h hend)
    · exact .inl (not_lt.mp hend)

theorem byTime_perm (evs : List (Event π)) : (byTime evs).Perm evs := List.perm_insertionSort _ evs

theorem byTime_sorted (evs : List (Event π)) : (byTime evs).Pairwise fun a b => a.timestampNs ≤ b.timestampNs := by
  have htotal : Std.Total fun a b : Event π => a.timestampNs ≤ b.timestampNs := ⟨fun a b => le_total _ _⟩
  have htrans : IsTrans (Event π) fun a b => a.timestampNs ≤ b.timestampNs := ⟨fun _ _ _ => le_trans⟩
  exact List.pairwise_insertionSort (fun a b : Event π => a.timestampNs ≤ b.timestampNs) evs

theorem byTime_head_le {evs rest : List (Event π)} {first : Event π} (h : byTime evs = first :: rest) :
    first ∈ evs ∧ ∀ ev ∈ evs, first.timestampNs ≤ ev.timestampNs := by
  have hsorted := byTime_sorted evs
  have hperm := byTime_perm evs
  rw [h] at hsorted hperm
  refine ⟨hperm.mem_iff.mp (by simp),fun ev hev => ?_⟩
  rcases List.mem_cons.mp (hperm.mem_iff.mpr hev) with rfl | hmem
  · exact le_refl _
  · exact (List.pairwise_cons.mp hsorted).1 ev hmem

theorem selected_sublist (cfg : Config π) (evs : List (Event π)) : (selected cfg evs).Sublist (byTime evs) := by
  unfold selected
  cases byTime evs with
  | nil => exact List.Sublist.refl _
  | cons first rest =>
    simp only
    split
    · exact List.filter_sublist
    · exact List.Sublist.refl _

/-- The selection keeps, with their multiplicity, the events whose offset from the earliest one lies in
the window. -/
theorem selected_perm (cfg : Config π) {evs : List (Event π)} {start : ℤ} (hstart : start ∈ evs.map (·.timestampNs))
    (hearliest : ∀ ev ∈ evs, start ≤ ev.timestampNs) :
    (selected cfg evs).Perm (evs.filter fun ev => InWindow cfg (ev.timestampNs-start)) := by
  unfold selected
  cases hsorted : byTime evs with
  | nil =>
    have hnil := (byTime_perm evs).symm
    rw [hsorted] at hnil
    rw [hnil.eq_nil]
    rfl
  | cons first rest =>
    obtain ⟨hmem,hle⟩ := byTime_head_le hsorted
    have hfirst : first.timestampNs = start := by
      obtain ⟨ev,hev,rfl⟩ := List.mem_map.mp hstart
      exact le_antisymm (hle ev hev) (hearliest first hmem)
    have hperm := byTime_perm evs
    rw [hsorted] at hperm
    simp only
    split
    · rw [hfirst]
      have hfilter := hperm.filter fun ev => inWindow cfg start ev
      rwa [List.filter_congr (p := fun ev => inWindow cfg start ev)
        (q := fun ev => decide (InWindow cfg (ev.timestampNs-start))) (l := evs)
        fun ev _ => by rw [Bool.eq_iff_iff,inWindow_iff,decide_eq_true_eq]] at hfilter
    · rename_i hopen
      rw [List.filter_eq_self.mpr fun ev hev => ?_]
      · exact hperm
      · have hev := hearliest ev hev
        exact decide_eq_true ⟨by omega,fun hend => absurd (.inr hend) hopen⟩

/-- Events with distinct timestamps are replayed in the same order however they come in. -/
theorem selected_eq_of_perm (cfg : Config π) {evs evs' : List (Event π)} (hperm : evs'.Perm evs)
    (hdistinct : (evs.map (·.timestampNs)).Nodup) : selected cfg evs' = selected cfg evs := by
  have hsame : byTime evs' = byTime evs := by
    refine List.Perm.eq_of_pairwise (fun a b ha hb hab hba => ?_) (byTime_sorted evs') (byTime_sorted evs)
      (((byTime_perm evs').trans hperm).trans (byTime_perm evs).symm)
    have ha := hperm.mem_iff.mp ((byTime_perm evs').mem_iff.mp ha)
    have hb := (byTime_perm evs).mem_iff.mp hb
    exact List.inj_on_of_nodup_map hdistinct ha hb (le_antisymm hab hba)
  unfold selected
  rw [hsame]

theorem duration_mono {x y : ℚ} (h : x ≤ y) : duration x ≤ duration y := by
  unfold duration
  split_ifs with hx hy hy
  · exact Int.floor_le_floor h
  · exact absurd (hx.trans h) hy
  · exact (Int.ceil_le.mpr (by simpa using (not_le.mp hx).le)).trans (Int.floor_nonneg.mpr hy)
  · exact Int.ceil_le_ceil h

section Offsets

variable (cfg : Config π) (buffered : List (Event π))

theorem effectiveSpeedup_pos : 0 < effectiveSpeedup cfg buffered := by
  unfold effectiveSpeedup
  simp only
  split <;> split
  · exact zero_lt_one
  · exact not_le.mp ‹_›
  · exact zero_lt_one
  · exact not_le.mp ‹_›

/-- Without a target duration, or without time to pass, the speedup is the one of the configuration. -/
theorem effectiveSpeedup_plain (h : cfg.targetDurationMs ≤ 0 ∨ spanNs buffered = 0) :
    effectiveSpeedup cfg buffered = if cfg.speedup ≤ 0 then 1 else cfg.speedup := by
  have hplain : ¬ (0 < cfg.targetDurationMs ∧ 1 < buffered.length ∧ 0 < spanNs buffered) := by
    rintro ⟨htarget,-,hspan⟩
    omega
  unfold effectiveSpeedup
  rw [if_neg hplain]

theorem fireOffsets_head {offset : ℚ} (h : (fireOffsets cfg buffered).head? = some offset) : offset = 0 := by
  cases buffered with
  | nil => cases h
  | cons first rest =>
    simp only [fireOffsets,List.map_cons,List.head?_cons,Option.some_inj,sub_self,Int.cast_zero,zero_div] at h
    exact h.symm

theorem fireOffsets_sorted (h : buffered.Pairwise fun a b => a.timestampNs ≤ b.timestampNs) :
    (fireOffsets cfg buffered).Pairwise (· ≤ ·) := by
  cases buffered with
  | nil => exact List.Pairwise.nil
  | cons first rest =>
    rw [fireOffsets,List.pairwise_map]
    refine h.imp fun {a b} hab => ?_
    have hpos := effectiveSpeedup_pos cfg (first :: rest)
    gcongr

/-- The offsets are the differences of the timestamps, in units of the effective speedup. -/
theorem fireOffsets_getElem {first ev : Event π} {i : ℕ} (hfirst : buffered.head? = some first)
    (hev : buffered[i]? = some ev) : (fireOffsets cfg buffered)[i]? =
      some (((ev.timestampNs-first.timestampNs : ℤ) : ℚ)/effectiveSpeedup cfg buffered) := by
  cases buffered with
  | nil => cases hfirst
  | cons a rest =>
    cases hfirst
    rw [fireOffsets,List.getElem?_map,hev]
    rfl

/-- With a target duration and a time to pass, the last event is due when the target duration is over. -/
theorem fireOffsets_last (htarget : 0 < cfg.targetDurationMs)
    (hsorted : buffered.Pairwise fun a b => a.timestampNs ≤ b.timestampNs) (hspan : spanNs buffered ≠ 0) :
    (fireOffsets cfg buffered).getLast? = some ((cfg.targetDurationMs*1000000 : ℤ) : ℚ) := by
  cases buffered with
  | nil => simp [spanNs] at hspan
  | cons first rest =>
    obtain ⟨last,hlast⟩ : ∃ last, (first :: rest).getLast? = some last := by simp [List.getLast?_cons]
    have hvalue : spanNs (first :: rest) = last.timestampNs-first.timestampNs := by
      simp only [spanNs,List.head?_cons,hlast]
    have hmem : last ∈ first :: rest := List.mem_of_getLast? hlast
    have hle : first.timestampNs ≤ last.timestampNs := by
      rcases List.mem_cons.mp hmem with rfl | hrest
      · exact le_refl _
      · exact (List.pairwise_cons.mp hsorted).1 last hrest
    have hpos : 0 < spanNs (first :: rest) := by omega
    have hlong : 1 < (first :: rest).length := by
      cases rest with
      | nil => simp [spanNs] at hspan
      | cons b rest => simp
    have hspanQ : (0 : ℚ) < (spanNs (first :: rest) : ℚ) := by exact_mod_cast hpos
    have htargetQ : (0 : ℚ) < ((cfg.targetDurationMs*1000000 : ℤ) : ℚ) := by exact_mod_cast (by omega)
    have hspeed : effectiveSpeedup cfg (first :: rest) =
        (spanNs (first :: rest) : ℚ)/((cfg.targetDurationMs*1000000 : ℤ) : ℚ) := by
      have hcond : 0 < cfg.targetDurationMs ∧ 1 < (first :: rest).length ∧ 0 < spanNs (first :: rest) :=
        ⟨htarget,hlong,hpos⟩
      simp only [effectiveSpeedup,if_pos hcond]
      rw [if_neg (not_le.mpr (div_pos hspanQ htargetQ))]
    rw [fireOffsets,List.getLast?_map,hlast,Option.map_some,hspeed,← hvalue]
    congr 1
    field_simp

theorem zip_map_filter {α β γ : Type*} (l : List α) (f : α → β) (keep : α → Bool) (g : α → β → γ) :
    ((l.zip (l.map f)).filter fun x => keep x.1).map (fun x => g x.1 x.2) =
      (l.filter keep).map fun a => g a (f a) := by
  induction l with
  | nil => rfl
  | cons a l ih =>
    rw [List.map_cons,List.zip_cons_cons]
    by_cases ha : keep a = true
    · rw [List.filter_cons_of_pos ha,List.filter_cons_of_pos (by exact ha),List.map_cons,List.map_cons,ih]
    · rw [List.filter_cons_of_neg ha,List.filter_cons_of_neg (by exact ha),ih]

theorem plan_eq {first : Event π} (hfirst : buffered.head? = some first) :
    plan cfg buffered = (buffered.filter (canDispatch cfg)).map fun ev => (ev,cfg.replayStartNs+
      duration (((ev.timestampNs-first.timestampNs : ℤ) : ℚ)/effectiveSpeedup cfg buffered)) := by
  cases buffered with
  | nil => cases hfirst
  | cons _ rest =>
    cases hfirst
    exact zip_map_filter (first :: rest)
      (fun ev => ((ev.timestampNs-first.timestampNs : ℤ) : ℚ)/effectiveSpeedup cfg (first :: rest)) (canDispatch cfg)
      fun ev offset => (ev,cfg.replayStartNs+duration offset)

theorem plan_events : (plan cfg buffered).map Prod.fst = buffered.filter (canDispatch cfg) := by
  cases hfirst : buffered.head? with
  | none =>
    rw [List.head?_eq_none_iff.mp hfirst]
    rfl
  | some first =>
    rw [plan_eq cfg buffered hfirst,List.map_map]
    exact List.map_id _

/-- The events are planned in the order in which they are due. -/
theorem plan_sorted (h : buffered.Pairwise fun a b => a.timestampNs ≤ b.timestampNs) :
    (plan cfg buffered).Pairwise fun x y => x.2 ≤ y.2 := by
  cases hfirst : buffered.head? with
  | none =>
    rw [List.head?_eq_none_iff.mp hfirst]
    exact List.Pairwise.nil
  | some first =>
    rw [plan_eq cfg buffered hfirst,List.pairwise_map]
    refine (h.sublist List.filter_sublist).imp fun {a b} hab => ?_
    have hpos := effectiveSpeedup_pos cfg buffered
    exact Int.add_le_add_left (duration_mono (by gcongr)) _

end Offsets

/-- What a step of the scheduler has begun to dispatch: an event, and the time for which it was scheduled. -/
def dispatching (t : State π) : Label → List (Event π × ℤ)
  | .schedule _ =>
    match t.scheduler with
    | .fan ev tm 0 _ => [(ev,tm.scheduledNs)]
    | _ => []
  | _ => []

def dispatches : State π → List Label → List (Event π × ℤ)
  | _,[] => []
  | s,l :: as =>
    match step s l with
    | some t => dispatching t l ++ dispatches t as
    | none => []

def Uncanceled (_ : State π) (l : Label) : Prop := l ≠ .cancel

instance (s : State π) : DecidablePred (Uncanceled s) := fun l => inferInstanceAs (Decidable (l ≠ .cancel))

def State.planned (s : State π) : List (Event π × ℤ) :=
  (s.scheduler.ahead.filter (canDispatch s.cfg)).map fun ev => (ev,s.fireAt ev)

theorem fireAt_move {s t : State π} {l : Label} (hm : Moves s l t) : t.fireAt = s.fireAt := by
  cases hm with
  | close | abandon =>
    unfold State.close
    split <;> rfl
  | insert why err hw => cases err <;> rfl
  | _ => rfl

theorem planned_due {s : State π} {ev : Event π} {rest : List (Event π)} (h : s.scheduler.ahead = ev :: rest)
    (now : ℤ) : dispatching (s.fire ev rest now) (.schedule now) ++ (s.fire ev rest now).planned = s.planned := by
  unfold State.planned State.fire
  rw [h]
  cases hd : canDispatch s.cfg ev with
  | true =>
    rw [List.filter_cons_of_pos hd]
    rfl
  | false =>
    rw [List.filter_cons_of_neg (by simp [hd])]
    rfl

theorem planned_same {s t : State π} (hcfg : t.cfg = s.cfg) (hfire : t.fireAt = s.fireAt)
    (hahead : t.scheduler.ahead = s.scheduler.ahead) : t.planned = s.planned := by
  rw [State.planned,State.planned,hcfg,hfire,hahead]

/-- A turn of the scheduler dispatches the head of what is planned, or leaves the plan. -/
theorem planned_schedule {s t : State π} {now : ℤ} (h : s.schedule now = some t) :
    dispatching t (.schedule now) ++ t.planned = s.planned := by
  unfold State.schedule at h
  cases hs : s.scheduler with
  | loop evs =>
    cases evs with
    | nil =>
      simp only [hs,Option.some.injEq] at h
      rw [← h]
      exact planned_same rfl rfl (by rw [hs]; rfl)
    | cons ev rest =>
      simp only [hs] at h
      split at h
      · cases h
        exact planned_same rfl rfl (by rw [hs]; rfl)
      · cases h
        exact planned_due (by rw [hs]; rfl) now
  | sleeping ev rest =>
    simp only [hs,Option.some.injEq] at h
    rw [← h]
    exact planned_due (by rw [hs]; rfl) now
  | fan ev tm vu rest =>
    simp only [hs] at h
    split at h
    · cases h
      exact planned_same rfl rfl (by rw [hs]; rfl)
    · split at h
      · cases h
        exact planned_same rfl rfl (by rw [hs]; rfl)
      · cases h
        exact planned_same rfl rfl (by rw [hs]; rfl)
  | blocked ev tm vu rest =>
    simp only [hs,Option.ite_none_right_eq_some,Option.some.injEq] at h
    rw [← h.2]
    exact planned_same rfl rfl (by rw [hs]; rfl)
  | waiting =>
    simp only [hs,Option.ite_none_right_eq_some,Option.some.injEq] at h
    rw [← h.2]
    unfold State.close
    split
    · simp only [dispatching,List.nil_append,State.planned,hs]
      rfl
    · exact planned_same rfl rfl (by rw [hs]; rfl)
  | awaiting =>
    simp only [hs] at h
    split at h
    · cases h
      exact planned_same rfl rfl (by rw [hs]; rfl)
    · cases h
  | abandoned =>
    simp only [hs,Option.ite_none_right_eq_some,Option.some.injEq] at h
    rw [← h.2]
    exact planned_same rfl rfl (by rw [hs]; rfl)
  | abandonedAwaiting =>
    simp only [hs] at h
    split at h
    · cases h
      exact planned_same rfl rfl (by rw [hs]; rfl)
    · cases h
  | returned err => simp [hs] at h

/-- The other steps of a run that nobody cancels leave the scheduler where it is. -/
theorem scheduler_unmoved {s t : State π} {l : Label} (hm : Moves s l t) (hl : ∀ now, l ≠ .schedule now)
    (hc : s.canceled = false) : t.scheduler = s.scheduler := by
  cases hm with
  | abandon ev rest hs hcan => simp [hc] at hcan
  | insert why err hw => cases err <;> rfl
  | drained now | sleep now | skipEvent now | startEvent now | nextEvent now | spawn now | block now | unblock now
  | close now | finishRun now | join now | giveUp now => exact absurd rfl (hl now)
  | _ => rfl

theorem planned_step {s t : State π} {l : Label} (h : step s l = some t) (hc : s.canceled = false) :
    dispatching t l ++ t.planned = s.planned := by
  obtain ⟨hpanic,hm⟩ := moves_of_step h
  by_cases hl : ∃ now, l = .schedule now
  · obtain ⟨now,rfl⟩ := hl
    simp only [step,hpanic,Bool.false_eq_true,if_false] at h
    exact planned_schedule h
  · have hnone : dispatching t l = [] := by
      cases l with
      | schedule now => exact absurd ⟨now,rfl⟩ hl
      | _ => rfl
    rw [hnone,List.nil_append]
    exact planned_same (cfg_move hm) (fireAt_move hm) (by rw [scheduler_unmoved hm (fun now he => hl ⟨now,he⟩) hc])

theorem uncanceled_step {s t : State π} {l : Label} (h : step s l = some t) (hok : Uncanceled s l)
    (hc : s.canceled = false) : t.canceled = false := by
  have hm := (moves_of_step h).2
  cases hm with
  | cancel => exact absurd rfl hok
  | close | abandon =>
    unfold State.close
    split <;> exact hc
  | insert why err hw => cases err <;> exact hc
  | _ => exact hc

/-- What a run has dispatched and what it will dispatch make up its plan. -/
theorem dispatches_planned {s t : State π} {as : List Label} (hr : Run step Uncanceled s as t)
    (hc : s.canceled = false) : dispatches s as ++ t.planned = s.planned := by
  induction hr with
  | nil s => rfl
  | @cons s m t l as hok hst _ ih =>
    rw [dispatches]
    simp only [hst]
    rw [List.append_assoc,ih (uncanceled_step hst hok hc),planned_step hst hc]

theorem planned_init (cfg : Config π) (evs : List (Event π)) :
    (init cfg evs).planned = plan cfg (selected cfg evs) := by
  unfold State.planned init
  simp only
  cases hfirst : (selected cfg evs).head? with
  | none =>
    rw [List.head?_eq_none_iff.mp hfirst]
    rfl
  | some first =>
    have hsome : selected cfg evs ≠ [] := by
      intro hnil
      rw [hnil] at hfirst
      cases hfirst
    rw [plan_eq cfg _ hfirst,if_neg hsome]
    rfl

/-- A run that is canceled once the first event is done, while the scheduler sleeps before the second one. -/
def cutRun : List Label :=
  [.schedule 0,.schedule 0,.schedule 0,.dispatched 0 nothing none,.send 0,.release 0,.finish 0,.schedule 0,.cancel,
    .abandon,.schedule 0,.receive,.receive,.insert none,.schedule 0]

end Replay
end Clearvoiance
