import RocketRpc.Rpc.SharedClient

/-
  The responses of a shared client and the calls they complete.

  `Matched` is the invariant of the table of read callbacks: under the id of an entry nothing
  of another call can come, because no other call with this id is about to send or waits for
  a response. Every step keeps it as long as a call registers under an id that is not in use
  (`step_matched`); `completes_own` reads off that every response completes the call it is
  for, and `completes_other` is a run that takes an id while it is in use.
-/

namespace RocketRpc.Rpc

open Machine World RocketRpc.Tcp RocketRpc.Coder

variable {Message : Type} {parse : Bytes → Message × Bool}

/-! ## The table matches -/

theorem pooled_dropRead {w : World Message} (h : Pooled w) : Pooled w.dropRead :=
  ⟨h.pool, h.connecting, h.others, h.tail⟩

/-- The calls of two states of the client are the same, but for callbacks that were lost. -/
def Alike (v v' : World Message) : Prop := v' = v ∨ v' = v.dropRead

namespace Alike

variable {v v' : World Message}

theorem state (h : Alike v v') : v'.state = v.state := by
  rcases h with rfl | rfl <;> rfl

theorem phase (h : Alike v v') : v'.phase = v.phase := by
  rcases h with rfl | rfl <;> rfl

theorem pooled (h : Alike v v') (hp : Pooled v) : Pooled v' := by
  rcases h with rfl | rfl
  · exact hp
  · exact pooled_dropRead hp

theorem answering (h : Alike v v') {t : ThreadId} {msg : AbstractProtocol}
    (ha : v'.Answering t msg) : v.Answering t msg := by
  rcases h with rfl | rfl <;> exact ha

end Alike

/-- The table, what is on its way and what the calls are about to do fit together. -/
structure Matched (s : SharedClient Message) (es : List (SharedEvent Message)) : Prop where
  pooled : ∀ j w, s.calls j = some w → Pooled w
  entry : ∀ id j, s.readCallbacks id = some j → ∃ w, s.calls j = some w ∧ w.state.msgId = id ∧
    w.phase ≠ .before ∧ w.client.readCallback = true
  awaited : ∀ j, s.awaited j = true → ∃ w, s.calls j = some w ∧ w.phase ≠ .before
  /-- Nothing of another call can come under the id of an entry. -/
  sole : ∀ id k, s.readCallbacks id = some k → ∀ j w, j ≠ k → s.calls j = some w →
    w.state.msgId = id → w.phase ≠ .sending ∧ s.awaited j = false
  answering : ∀ j w t msg, s.calls j = some w → w.Answering t msg →
    ∃ m, msg = .tinyPB m ∧ .delivered j j t m ∈ es
  own : ∀ k j t m, .delivered k j t m ∈ es → j = k
  won : ∀ j t msg, .call j (.won t (.response msg)) ∈ es →
    ∃ m, msg = .tinyPB m ∧ .delivered j j t m ∈ es
  displaced : ∀ j k finished, .displaced j k finished ∈ es → finished = true

theorem matched_new : Matched ({} : SharedClient Message) [] := by
  refine ⟨?_, ?_, ?_, ?_, ?_, ?_, ?_, ?_⟩ <;> simp

/-- What the use of the client by a step of call `k` does to everything else. -/
structure Took (s s' : SharedClient Message) (k : Nat) (w' : World Message) (id : Bytes)
    (use : Use) : Prop where
  self : s'.calls k = some w'
  others : ∀ j, j ≠ k → s'.calls j = s.calls j ∨
    s.readCallbacks id = some j ∧ (use = .register ∨ use = .cancel) ∧
      s'.calls j = (s.calls j).map World.dropRead
  entries : ∀ id' j, s'.readCallbacks id' = some j →
    id' = id ∧ j = k ∧ use = .register ∨
      s.readCallbacks id' = some j ∧ (id' = id → use = .none ∨ use = .send)
  awaited : ∀ j, s'.awaited j = true → s.awaited j = true ∨ j = k ∧ use = .send

theorem took_does (s : SharedClient Message) (k : Nat) (w' : World Message) (id : Bytes)
    (use : Use) : Took s ((s.setCall k w').does k id use) k w' id use := by
  have hcalls : ∀ j, j ≠ k → (s.setCall k w').calls j = s.calls j :=
    fun j hj => Function.update_of_ne hj _ _
  have hself : (s.setCall k w').calls k = some w' := Function.update_self _ _ _
  -- the entry of the id is set or erased
  have hentry : ∀ entry : Option Nat, ∀ id' j,
      ((s.setCall k w').setEntry k id entry).readCallbacks id' = some j →
        id' = id ∧ entry = some j ∨ id' ≠ id ∧ s.readCallbacks id' = some j := by
    intro entry id' j hj
    have hu : (if id' = id then entry else s.readCallbacks id') = some j :=
      (Function.update_apply s.readCallbacks id entry id').symm.trans hj
    split at hu
    · rename_i hid
      exact Or.inl ⟨hid, hu⟩
    · rename_i hid
      exact Or.inr ⟨hid, hu⟩
  have hset : ∀ entry : Option Nat, (use = .register ∨ use = .cancel) →
      (∀ j, entry = some j → j = k ∧ use = .register) →
      Took s ((s.setCall k w').setEntry k id entry) k w' id use := by
    intro entry huse hk
    refine ⟨?_, ?_, ?_, fun j hj => Or.inl hj⟩
    · simp [SharedClient.setEntry, hself]
    · intro j hj
      simp only [SharedClient.setEntry, hcalls j hj]
      split
      · rename_i hc
        exact Or.inr ⟨hc.1, huse, rfl⟩
      · exact Or.inl rfl
    · intro id' j hj
      rcases hentry entry id' j hj with ⟨hid, he⟩ | ⟨hid, he⟩
      · exact Or.inl ⟨hid, hk j he⟩
      · exact Or.inr ⟨he, fun h => absurd h hid⟩
  cases use with
  | none =>
    exact ⟨hself, fun j hj => Or.inl (hcalls j hj), fun _ _ hj => Or.inr ⟨hj, fun _ => Or.inl rfl⟩,
      fun _ hj => Or.inl hj⟩
  | register => exact hset _ (Or.inl rfl) (by simp [eq_comm])
  | cancel => exact hset _ (Or.inr rfl) (by simp)
  | send =>
    refine ⟨hself, fun j hj => Or.inl (hcalls j hj),
      fun _ _ hj => Or.inr ⟨hj, fun _ => Or.inr rfl⟩, fun j hj => ?_⟩
    by_cases hjk : j = k
    · exact Or.inr ⟨hjk, rfl⟩
    · exact Or.inl ((Function.update_of_ne hjk _ _).symm.trans hj)

namespace Took

variable {s s' : SharedClient Message} {k : Nat} {w' : World Message} {id : Bytes} {use : Use}

theorem alike (h : Took s s' k w' id use) {j : Nat} (hj : j ≠ k) {v' : World Message}
    (hv' : s'.calls j = some v') : ∃ v, s.calls j = some v ∧ Alike v v' := by
  rcases h.others j hj with heq | ⟨-, -, heq⟩
  · exact ⟨v', heq.symm.trans hv', Or.inl rfl⟩
  · obtain ⟨v, hv, rfl⟩ := Option.map_eq_some_iff.mp (heq.symm.trans hv')
    exact ⟨v, hv, Or.inr rfl⟩

/-- A call whose entry is not the one in question keeps its callback. -/
theorem keeps (h : Took s s' k w' id use) {j : Nat} (hj : j ≠ k) {v : World Message}
    (hv : s.calls j = some v) : ∃ v', s'.calls j = some v' ∧ Alike v v' ∧
      (v' = v ∨ s.readCallbacks id = some j ∧ (use = .register ∨ use = .cancel)) := by
  rcases h.others j hj with heq | ⟨hentry, huse, heq⟩
  · exact ⟨v, heq.trans hv, Or.inl rfl, Or.inl rfl⟩
  · exact ⟨v.dropRead, by rw [heq, hv]; rfl, Or.inr rfl, Or.inr ⟨hentry, huse⟩⟩

end Took

theorem SendPhase.Next.sending {use : Use} {p : SendPhase} (h : SendPhase.Next use p .sending) :
    p = .sending ∨ use = .register := by
  cases h with
  | same => exact Or.inl rfl
  | register => exact Or.inr rfl

theorem SendPhase.Next.before {use : Use} {p q : SendPhase} (h : SendPhase.Next use p q)
    (hp : p ≠ .before ∨ use = .register ∨ use = .send) : q ≠ .before := by
  cases h with
  | same huse =>
    refine hp.elim id fun hu => ?_
    rcases huse with rfl | rfl <;> exact absurd hu (by decide)
  | leave | register | send => decide

/-- A registration displaces the entry of another call. -/
theorem mem_displaces {s : SharedClient Message} {k : Nat} {id : Bytes} {use : Use}
    {e : SharedEvent Message} (h : e ∈ s.displaces k id use) :
    use = .register ∧ ∃ j, s.readCallbacks id = some j ∧ j ≠ k ∧
      e = .displaced j k ((s.calls j).any fun v => v.state.finished) := by
  cases use with
  | register =>
    simp only [SharedClient.displaces] at h
    split at h
    · rename_i j hentry
      split at h
      · exact absurd h (by simp)
      · rename_i hne
        exact ⟨rfl, j, hentry, hne, List.mem_singleton.mp h⟩
    · exact absurd h (by simp)
  | none | cancel | send => exact absurd h (by simp [SharedClient.displaces])

/-- The id of a call is fixed when it has registered, or uses the client. -/
theorem Advance.sameId {w w' : World Message} {use : Use} {es : List (Event Message)}
    (h : Advance w w' use es) (hne : w.phase ≠ .before ∨ use ≠ .none) :
    w'.state.msgId = w.state.msgId :=
  h.msgId.resolve_right fun ⟨hbefore, hnone⟩ => hne.elim (absurd hbefore) (absurd hnone)

theorem SendPhase.Next.of_send {p q : SendPhase} (h : SendPhase.Next .send p q) :
    p = .sending := by
  cases h with
  | same huse | leave huse => exact absurd huse (by decide)
  | send => rfl

section

variable {s s' : SharedClient Message} {tr : List (SharedEvent Message)} {k : Nat}
  {w w' : World Message} {use : Use} {es : List (Event Message)}

/-- An entry after a step of call `k` is of a call that has its callback. -/
theorem Matched.advance_entry (h : Matched s tr) (hk : s.calls k = some w)
    (hadv : Advance w w' use es) (htook : Took s s' k w' w.state.msgId use) {id : Bytes} {j : Nat}
    (hentry : s'.readCallbacks id = some j) : ∃ v, s'.calls j = some v ∧ v.state.msgId = id ∧
      v.phase ≠ .before ∧ v.client.readCallback = true := by
  rcases htook.entries id j hentry with ⟨rfl, rfl, rfl⟩ | ⟨hold, huse⟩
  · refine ⟨w', htook.self, hadv.sameId (Or.inr (by decide)), ?_, hadv.callback⟩
    exact hadv.phase.before (Or.inr (Or.inl rfl))
  · obtain ⟨v, hv, hid, hphase, hcallback⟩ := h.entry id j hold
    by_cases hj : j = k
    · subst hj
      obtain rfl : w = v := by simpa using hk.symm.trans hv
      refine ⟨w', htook.self, (hadv.sameId (Or.inl hphase)).trans hid,
        hadv.phase.before (Or.inl hphase), ?_⟩
      rw [hadv.callback]
      rcases huse hid.symm with rfl | rfl <;> exact hcallback
    · obtain ⟨v', hv', hlike, hkeeps⟩ := htook.keeps hj hv
      refine ⟨v', hv', hlike.state ▸ hid, hlike.phase ▸ hphase, ?_⟩
      rcases hkeeps with rfl | ⟨hother, hu⟩
      · exact hcallback
      · -- the entry that was lost would be this one
        obtain ⟨u, hu', hid', -⟩ := h.entry _ j hother
        obtain rfl : v = u := by simpa using hv.symm.trans hu'
        rcases huse (hid.symm.trans hid') with rfl | rfl <;> exact absurd hu (by decide)

/-- The call that has taken the step does not use the id of another's entry. -/
theorem Matched.advance_self (h : Matched s tr) (hk : s.calls k = some w)
    (hadv : Advance w w' use es) (htook : Took s s' k w' w.state.msgId use) {id : Bytes} {i : Nat}
    (hold : s.readCallbacks id = some i)
    (huse : id = w.state.msgId → use = .none ∨ use = .send) (hi : k ≠ i)
    (hid : w'.state.msgId = id) : w'.phase ≠ .sending ∧ s'.awaited k = false := by
  have hbefore : w.phase ≠ .sending ∧ s.awaited k = false := by
    rcases hadv.msgId with heq | ⟨hb, -⟩
    · exact h.sole id i hold k w hi hk (heq.symm.trans hid)
    · refine ⟨by simp [hb], ?_⟩
      by_contra ha
      obtain ⟨v, hv, hne⟩ := h.awaited k (by simpa using ha)
      obtain rfl : w = v := by simpa using hk.symm.trans hv
      exact hne hb
  constructor
  · intro hp
    have hnext := hadv.phase
    rw [hp] at hnext
    rcases hnext.sending with hp' | rfl
    · exact hbefore.1 hp'
    · have hmsgId := hadv.sameId (Or.inr (by decide))
      exact absurd (huse (hid.symm.trans hmsgId)) (by decide)
  · by_contra ha
    rcases htook.awaited k (by simpa using ha) with ha | ⟨-, rfl⟩
    · exact absurd ha (by simp [hbefore.2])
    · exact hbefore.1 hadv.phase.of_send

/-- Nothing of another call can come under the id of an entry after the step. -/
theorem Matched.advance_sole (h : Matched s tr) (hk : s.calls k = some w)
    (hadv : Advance w w' use es)
    (hfresh : use = .register → ∀ j, j ≠ k → ¬ s.InUse w.state.msgId j)
    (htook : Took s s' k w' w.state.msgId use) {id : Bytes} {i j : Nat} {v' : World Message}
    (hentry : s'.readCallbacks id = some i) (hj : j ≠ i) (hv' : s'.calls j = some v')
    (hid : v'.state.msgId = id) : v'.phase ≠ .sending ∧ s'.awaited j = false := by
  rcases htook.entries id i hentry with ⟨rfl, rfl, rfl⟩ | ⟨hold, huse⟩
  · -- the entry is new, and no other call uses its id
    obtain ⟨v, hv, hlike⟩ := htook.alike hj hv'
    rw [hlike.state] at hid
    have hnot := hfresh rfl j hj
    rw [hlike.phase]
    refine ⟨fun hp => hnot ⟨v, hv, hid, Or.inr (Or.inl hp)⟩, ?_⟩
    by_contra ha
    rcases htook.awaited j (by simpa using ha) with ha | ⟨rfl, -⟩
    · exact hnot ⟨v, hv, hid, Or.inr (Or.inr ha)⟩
    · exact hj rfl
  · by_cases hjk : j = k
    · subst hjk
      obtain rfl : w' = v' := by simpa using htook.self.symm.trans hv'
      exact h.advance_self hk hadv htook hold huse hj hid
    · obtain ⟨v, hv, hlike⟩ := htook.alike hjk hv'
      rw [hlike.state] at hid
      obtain ⟨hp, ha⟩ := h.sole id i hold j v hj hv hid
      rw [hlike.phase]
      refine ⟨hp, ?_⟩
      by_contra ha'
      rcases htook.awaited j (by simpa using ha') with hj' | ⟨rfl, -⟩
      · exact absurd hj' (by simp [ha])
      · exact hjk rfl

/-- A step of one call. -/
theorem Matched.advance (h : Matched s tr) (hk : s.calls k = some w)
    (hadv : Advance w w' use es)
    (hfresh : use = .register → ∀ j, j ≠ k → ¬ s.InUse w.state.msgId j)
    (htook : Took s s' k w' w.state.msgId use) :
    Matched s' (tr ++ (es.map (.call k) ++ s.displaces k w.state.msgId use)) := by
  -- the events of the step are of the call, or of the entry that it displaces
  have hmem : ∀ {e}, e ∈ tr ++ (es.map (.call k) ++ s.displaces k w.state.msgId use) →
      e ∈ tr ∨ (∃ e' ∈ es, .call k e' = e) ∨ e ∈ s.displaces k w.state.msgId use := by
    intro e he
    simpa only [List.mem_append, List.mem_map] using he
  have hlater : ∀ {j t msg}, (∃ m, msg = AbstractProtocol.tinyPB m ∧ .delivered j j t m ∈ tr) →
      ∃ m, msg = .tinyPB m ∧
        .delivered j j t m ∈ tr ++ (es.map (.call k) ++ s.displaces k w.state.msgId use) :=
    fun ⟨m, hm, hin⟩ => ⟨m, hm, List.mem_append_left _ hin⟩
  refine ⟨?_, fun id j => h.advance_entry hk hadv htook, ?_,
    fun id i hentry j v' => h.advance_sole hk hadv hfresh htook hentry, ?_, ?_, ?_, ?_⟩
  · intro j v' hv'
    by_cases hj : j = k
    · subst hj
      obtain rfl : w' = v' := by simpa using htook.self.symm.trans hv'
      exact hadv.pooled
    · obtain ⟨v, hv, hlike⟩ := htook.alike hj hv'
      exact hlike.pooled (h.pooled j v hv)
  · intro j hj
    rcases htook.awaited j hj with hj | ⟨rfl, rfl⟩
    · obtain ⟨v, hv, hphase⟩ := h.awaited j hj
      by_cases hjk : j = k
      · subst hjk
        obtain rfl : w = v := by simpa using hk.symm.trans hv
        exact ⟨w', htook.self, hadv.phase.before (Or.inl hphase)⟩
      · obtain ⟨v', hv', hlike, -⟩ := htook.keeps hjk hv
        exact ⟨v', hv', hlike.phase ▸ hphase⟩
    · exact ⟨w', htook.self, hadv.phase.before (Or.inr (Or.inr rfl))⟩
  · intro j v' t msg hv' hans
    refine hlater ?_
    by_cases hj : j = k
    · subst hj
      obtain rfl : w' = v' := by simpa using htook.self.symm.trans hv'
      exact h.answering j w t msg hk (hadv.answering t msg hans)
    · obtain ⟨v, hv, hlike⟩ := htook.alike hj hv'
      exact h.answering j v t msg hv (hlike.answering hans)
  · intro i j t m hin
    rcases hmem hin with hin | ⟨e, -, he⟩ | hin
    · exact h.own i j t m hin
    · exact absurd he (by simp)
    · obtain ⟨-, j', -, -, he⟩ := mem_displaces hin
      exact absurd he (by simp)
  · intro j t msg hin
    refine hlater ?_
    rcases hmem hin with hin | ⟨e, he, heq⟩ | hin
    · exact h.won j t msg hin
    · obtain ⟨rfl, rfl⟩ : k = j ∧ e = .won t (.response msg) := by simpa using heq
      exact h.answering k w t msg hk (hadv.won t msg he)
    · obtain ⟨-, j', -, -, he⟩ := mem_displaces hin
      exact absurd he (by simp)
  · intro j i finished hin
    rcases hmem hin with hin | ⟨e, -, he⟩ | hin
    · exact h.displaced j i finished hin
    · exact absurd he (by simp)
    · obtain ⟨hregister, j', hentry, hne, he⟩ := mem_displaces hin
      obtain ⟨rfl, -, rfl⟩ : j = j' ∧ i = k ∧
          finished = (s.calls j').any fun v => v.state.finished := by simpa using he
      obtain ⟨v, hv, hid, -⟩ := h.entry _ j hentry
      by_contra hf
      exact hfresh hregister j hne ⟨v, hv, hid, Or.inl ⟨hentry, by simpa [hv] using hf⟩⟩

end

theorem awaited_of_update {s : SharedClient Message} {k j : Nat}
    (h : Function.update s.awaited k false j = true) : s.awaited j = true ∧ j ≠ k := by
  rw [Function.update_apply] at h
  split at h
  · exact absurd h (by decide)
  · rename_i hjk
    exact ⟨h, hjk⟩

/-- A response is no longer on its way. -/
theorem Matched.lose {s : SharedClient Message} {tr : List (SharedEvent Message)}
    (h : Matched s tr) (k : Nat) :
    Matched { s with awaited := Function.update s.awaited k false } tr := by
  refine ⟨h.pooled, h.entry, fun j hj => h.awaited j (awaited_of_update hj).1, ?_, h.answering,
    h.own, h.won, h.displaced⟩
  intro id i hentry j w hj hw hid
  obtain ⟨hp, ha⟩ := h.sole id i hentry j w hj hw hid
  refine ⟨hp, ?_⟩
  by_contra hu
  exact absurd (awaited_of_update (by simpa using hu)).1 (by simp [ha])

/-- The table gives a response to the call that it is for. -/
theorem Matched.deliver {s : SharedClient Message} {tr : List (SharedEvent Message)} {k : Nat}
    {t : ThreadId} {msg : TinyPBProtocol} {w w' : World Message} {es : List (Event Message)}
    (h : Matched s tr) (hk : s.calls k = some w) (hentry : s.readCallbacks msg.msgId = some k)
    (hstep : w.step parse (.responseArrives t (.tinyPB msg)) = some (w', es)) :
    Matched ({ s with
      awaited := Function.update s.awaited k false
      readCallbacks := Function.update s.readCallbacks msg.msgId none }.setCall k w')
      (tr ++ [.delivered k k t msg]) := by
  obtain ⟨hpooled, hphase, hstate, -, -, hans⟩ := step_arrival (h.pooled k w hk) hstep
  have hcalls : ∀ j v', Function.update s.calls k (some w') j = some v' →
      j = k ∧ v' = w' ∨ j ≠ k ∧ s.calls j = some v' := by
    intro j v' hv'
    rw [Function.update_apply] at hv'
    split at hv'
    · rename_i hj
      exact Or.inl ⟨hj, (Option.some.inj hv').symm⟩
    · rename_i hj
      exact Or.inr ⟨hj, hv'⟩
  have hself : Function.update s.calls k (some w') k = some w' := Function.update_self _ _ _
  have hother : ∀ {j v}, j ≠ k → s.calls j = some v →
      Function.update s.calls k (some w') j = some v :=
    fun hj hv => (Function.update_of_ne hj _ _).trans hv
  have hentries : ∀ id j, Function.update s.readCallbacks msg.msgId none id = some j →
      id ≠ msg.msgId ∧ s.readCallbacks id = some j := by
    intro id j hj
    rw [Function.update_apply] at hj
    split at hj
    · exact absurd hj (by simp)
    · rename_i hid
      exact ⟨hid, hj⟩
  refine ⟨?_, ?_, ?_, ?_, ?_, ?_, ?_, ?_⟩
  · intro j v' hv'
    rcases hcalls j v' hv' with ⟨-, rfl⟩ | ⟨-, hv⟩
    · exact hpooled
    · exact h.pooled j v' hv
  · intro id j hj
    obtain ⟨hid, hj⟩ := hentries id j hj
    obtain ⟨v, hv, hvid, hrest⟩ := h.entry id j hj
    refine ⟨v, hother ?_ hv, hvid, hrest⟩
    -- a call has no entry but the one under its own id
    rintro rfl
    obtain ⟨u, hu, huid, -⟩ := h.entry _ j hentry
    obtain rfl : v = u := by simpa using hv.symm.trans hu
    exact hid (hvid.symm.trans huid)
  · intro j hj
    obtain ⟨hj, hjk⟩ := awaited_of_update hj
    obtain ⟨v, hv, hp⟩ := h.awaited j hj
    exact ⟨v, hother hjk hv, hp⟩
  · intro id i hi j v' hj hv' hid
    obtain ⟨-, hi⟩ := hentries id i hi
    have hold : ∃ v, s.calls j = some v ∧ v.state = v'.state ∧ v.phase = v'.phase := by
      rcases hcalls j v' hv' with ⟨rfl, rfl⟩ | ⟨-, hv⟩
      · exact ⟨w, hk, hstate.symm, hphase.symm⟩
      · exact ⟨v', hv, rfl, rfl⟩
    obtain ⟨v, hv, hvstate, hvphase⟩ := hold
    obtain ⟨hp, ha⟩ := h.sole id i hi j v hj hv (by rw [hvstate]; exact hid)
    refine ⟨hvphase ▸ hp, ?_⟩
    by_contra hu
    exact absurd (awaited_of_update (eq_true_of_ne_false hu)).1 (by simp [ha])
  · intro j v' u m hv' hu
    have hold : (∃ v, s.calls j = some v ∧ v.Answering u m) ∨
        j = k ∧ u = t ∧ m = .tinyPB msg := by
      rcases hcalls j v' hv' with ⟨rfl, rfl⟩ | ⟨-, hv⟩
      · exact (hans u m hu).imp (fun hw => ⟨w, hk, hw⟩) fun hm => ⟨rfl, hm⟩
      · exact Or.inl ⟨v', hv, hu⟩
    rcases hold with ⟨v, hv, hvu⟩ | ⟨rfl, rfl, rfl⟩
    · obtain ⟨m', hm', hmem⟩ := h.answering j v u m hv hvu
      exact ⟨m', hm', List.mem_append_left _ hmem⟩
    · exact ⟨msg, rfl, by simp⟩
  · intro i j u m hmem
    rcases List.mem_append.mp hmem with hmem | hmem
    · exact h.own i j u m hmem
    · obtain ⟨rfl, rfl, -⟩ : i = k ∧ j = k ∧ u = t ∧ m = msg := by simpa using hmem
      rfl
  · intro j u m hmem
    obtain ⟨m', hm', hmem⟩ := h.won j u m ((List.mem_append.mp hmem).resolve_right (by simp))
    exact ⟨m', hm', List.mem_append_left _ hmem⟩
  · exact fun j i f hmem =>
      h.displaced j i f ((List.mem_append.mp hmem).resolve_right (by simp))

theorem Matched.arrives {s s' : SharedClient Message} {tr es : List (SharedEvent Message)}
    {k : Nat} {t : ThreadId} {msg : TinyPBProtocol} (h : Matched s tr)
    (hstep : s.step parse (.arrives k t msg) = some (s', es)) : Matched s' (tr ++ es) := by
  simp only [SharedClient.step] at hstep
  split at hstep
  case h_2 => exact absurd hstep (by simp)
  rename_i w hk
  split at hstep
  case isFalse => exact absurd hstep (by simp)
  rename_i hc
  obtain ⟨hawaited, hid⟩ := hc
  split at hstep
  · rename_i j hentry
    -- the entry under the id of the response is the entry of the call that it is for
    obtain rfl : j = k := by
      by_contra hj
      obtain ⟨-, ha⟩ := h.sole _ j hentry k w (Ne.symm hj) hk hid
      exact absurd hawaited (by simp [ha])
    rw [hk] at hstep
    obtain ⟨⟨w', es'⟩, harrive, heq⟩ := Option.map_eq_some_iff.mp hstep
    obtain ⟨rfl, rfl⟩ := Prod.mk.inj heq
    exact h.deliver hk hentry harrive
  · obtain ⟨rfl, rfl⟩ : _ = s' ∧ [] = es := by simpa using hstep
    rw [List.append_nil]
    exact h.lose k

theorem Matched.begins {s : SharedClient Message} {tr : List (SharedEvent Message)} {k : Nat}
    {w : World Message} (h : Matched s tr) (hk : s.calls k = none) (hpooled : Pooled w)
    (hphase : w.phase ≠ .sending) (hans : ∀ t msg, ¬ w.Answering t msg) :
    Matched (s.setCall k w) tr := by
  have hne : ∀ {j v}, s.calls j = some v → j ≠ k := by
    rintro j v hv rfl
    exact absurd (hk.symm.trans hv) (by simp)
  have hold : ∀ {j v}, s.calls j = some v → (s.setCall k w).calls j = some v :=
    fun hv => (Function.update_of_ne (hne hv) _ _).trans hv
  have hcalls : ∀ j v, (s.setCall k w).calls j = some v → j = k ∧ v = w ∨ s.calls j = some v := by
    intro j v hv
    have hu : (if j = k then some w else s.calls j) = some v :=
      (Function.update_apply s.calls k (some w) j).symm.trans hv
    split at hu
    · rename_i hj
      exact Or.inl ⟨hj, (Option.some.inj hu).symm⟩
    · exact Or.inr hu
  refine ⟨?_, ?_, ?_, ?_, ?_, h.own, h.won, h.displaced⟩
  · intro j v hv
    rcases hcalls j v hv with ⟨-, rfl⟩ | hv
    · exact hpooled
    · exact h.pooled j v hv
  · intro id j hj
    obtain ⟨v, hv, hrest⟩ := h.entry id j hj
    exact ⟨v, hold hv, hrest⟩
  · intro j hj
    obtain ⟨v, hv, hrest⟩ := h.awaited j hj
    exact ⟨v, hold hv, hrest⟩
  · intro id i hi j v hj hv hid
    rcases hcalls j v hv with ⟨rfl, rfl⟩ | hv
    · refine ⟨hphase, ?_⟩
      by_contra ha
      obtain ⟨u, hu, -⟩ := h.awaited j (eq_true_of_ne_false ha)
      exact hne hu rfl
    · exact h.sole id i hi j v hj hv hid
  · intro j v t msg hv hvt
    rcases hcalls j v hv with ⟨-, rfl⟩ | hv
    · exact absurd hvt (hans t msg)
    · exact h.answering j v t msg hv hvt

theorem step_matched {s s' : SharedClient Message} {tr es : List (SharedEvent Message)}
    {l : SharedLabel Message} (h : Matched s tr) (hok : s.FreshId l)
    (hstep : s.step parse l = some (s', es)) : Matched s' (tr ++ es) := by
  cases l with
  | begins k channel args call controller response =>
    simp only [SharedClient.step] at hstep
    split at hstep
    · rename_i hnone
      obtain ⟨rfl, rfl⟩ : _ = s' ∧ [] = es := by simpa using hstep
      obtain ⟨hpooled, hphase, hans⟩ := call_pooled args call controller response
        (show ({ channel with pool := true } : RpcChannel).pool = true from rfl)
      rw [List.append_nil]
      exact h.begins (Option.isNone_iff_eq_none.mp hnone) hpooled hphase hans
    · exact absurd hstep (by simp)
  | call k l =>
    simp only [SharedClient.step] at hstep
    split at hstep
    · rename_i w hk
      split at hstep
      · rename_i hown
        obtain ⟨⟨w', es'⟩, hw, heq⟩ := Option.map_eq_some_iff.mp hstep
        obtain ⟨rfl, rfl⟩ := Prod.mk.inj heq
        exact h.advance hk (step_advance (h.pooled k w hk) hown hw) (hok w hk)
          (took_does s k w' _ _)
      · exact absurd hstep (by simp)
    · exact absurd hstep (by simp)
  | arrives k t msg => exact h.arrives hstep
  | lost k =>
    simp only [SharedClient.step] at hstep
    split at hstep
    · obtain ⟨rfl, rfl⟩ : _ = s' ∧ [] = es := by simpa using hstep
      rw [List.append_nil]
      exact h.lose k
    · exact absurd hstep (by simp)
  | stops =>
    obtain ⟨rfl, rfl⟩ : _ = s' ∧ [] = es := by simpa [SharedClient.step] using hstep
    rw [List.append_nil]
    have hcalls : ∀ j v', (s.calls j).map World.dropRead = some v' →
        ∃ v, s.calls j = some v ∧ Alike v v' := by
      intro j v' hv'
      obtain ⟨v, hv, rfl⟩ := Option.map_eq_some_iff.mp hv'
      exact ⟨v, hv, Or.inr rfl⟩
    refine ⟨?_, fun _ _ hj => absurd hj (by simp), ?_, fun _ _ hi => absurd hi (by simp), ?_,
      h.own, h.won, h.displaced⟩
    · intro j v' hv'
      obtain ⟨v, hv, hlike⟩ := hcalls j v' hv'
      exact hlike.pooled (h.pooled j v hv)
    · intro j hj
      obtain ⟨v, hv, hp⟩ := h.awaited j hj
      exact ⟨v.dropRead, Option.map_eq_some_iff.mpr ⟨v, hv, rfl⟩, hp⟩
    · intro j v' t msg hv' hvt
      obtain ⟨v, hv, hlike⟩ := hcalls j v' hv'
      exact h.answering j v t msg hv (hlike.answering hvt)

/-- When no call takes a message id that is in use, every response completes the call that it
    is for, and no call loses its read callback to another one before it is finished. -/
theorem completes_own (parse : Bytes → Message × Bool) {ls : List (SharedLabel Message)}
    {s : SharedClient Message} {es : List (SharedEvent Message)}
    (hrun : run (SharedClient.step parse) {} ls = some (s, es))
    (hfresh : RunOk (SharedClient.step parse) SharedClient.FreshId {} ls) :
    (∀ k j t msg, .delivered k j t msg ∈ es → j = k) ∧
      (∀ j t msg, .call j (.won t (.response msg)) ∈ es →
        ∃ m, msg = .tinyPB m ∧ .delivered j j t m ∈ es) ∧
      ∀ j k finished, .displaced j k finished ∈ es → finished = true := by
  have hmatched : Matched s ([] ++ es) := by
    refine runOk_induction Matched ?_ [] matched_new hfresh hrun
    exact fun s tr l s' es h hok hstep => step_matched h hok hstep
  exact ⟨hmatched.own, hmatched.won, hmatched.displaced⟩

/-! ## Runs -/

namespace SharedClient

instance (s : SharedClient Message) (id : Bytes) (j : Nat) : Decidable (s.InUse id j) :=
  decidable_of_iff ((s.calls j).any (fun w => w.state.msgId = id ∧
    (s.readCallbacks id = some j ∧ w.state.finished = false ∨ w.phase = .sending ∨
      s.awaited j = true)) = true) (by simp [InUse, Option.any_eq_true])

/-- `FreshId` among the first `n` calls. -/
def FreshBelow (n : Nat) (s : SharedClient Message) : SharedLabel Message → Prop
  | .call k l => ∀ w ∈ (s.calls k).toList, w.use l = .register →
      ∀ j < n, j ≠ k → ¬ s.InUse w.state.msgId j
  | _ => True

instance (n : Nat) (s : SharedClient Message) : DecidablePred (s.FreshBelow n)
  | .call k l => inferInstanceAs (Decidable (∀ w ∈ (s.calls k).toList, w.use l = .register →
      ∀ j < n, j ≠ k → ¬ s.InUse w.state.msgId j))
  | .begins .. | .arrives .. | .lost _ | .stops => .isTrue trivial

end SharedClient

/-- The label begins no call from the `n`th on. -/
def SharedLabel.below (n : Nat) : SharedLabel Message → Bool
  | .begins k .. => k < n
  | _ => true

/-- A call that has not begun begins at a label of its own. -/
theorem step_calls_none {s s' : SharedClient Message} {l : SharedLabel Message}
    {es : List (SharedEvent Message)} {n j : Nat} (hl : l.below n = true) (hj : n ≤ j)
    (hnone : s.calls j = none) (hstep : s.step parse l = some (s', es)) : s'.calls j = none := by
  have hset : ∀ {s₁ : SharedClient Message} {k : Nat} (w : World Message), j ≠ k →
      s₁.calls j = none → (s₁.setCall k w).calls j = none :=
    fun _ hjk hs => (Function.update_of_ne hjk _ _).trans hs
  cases l with
  | begins k channel args call controller response =>
    have hk : k < n := by simpa [SharedLabel.below] using hl
    simp only [SharedClient.step] at hstep
    split at hstep
    · obtain ⟨rfl, -⟩ : _ = s' ∧ [] = es := by simpa using hstep
      exact hset _ (by omega) hnone
    · exact absurd hstep (by simp)
  | call k l =>
    simp only [SharedClient.step] at hstep
    split at hstep
    · rename_i w hk
      split at hstep
      · obtain ⟨⟨w', es'⟩, hw, heq⟩ := Option.map_eq_some_iff.mp hstep
        obtain ⟨rfl, -⟩ := Prod.mk.inj heq
        have hjk : j ≠ k := by
          rintro rfl
          exact absurd (hnone.symm.trans hk) (by simp)
        rcases (took_does s k w' _ _).others j hjk with hsame | ⟨-, -, hdrop⟩
        · exact hsame.trans hnone
        · rw [hdrop, hnone]
          rfl
      · exact absurd hstep (by simp)
    · exact absurd hstep (by simp)
  | arrives k t msg =>
    simp only [SharedClient.step] at hstep
    split at hstep
    · split at hstep
      · split at hstep
        · rename_i i hentry
          split at hstep
          · rename_i v hv
            obtain ⟨⟨v', es'⟩, hw, heq⟩ := Option.map_eq_some_iff.mp hstep
            obtain ⟨rfl, -⟩ := Prod.mk.inj heq
            refine hset v' ?_ hnone
            rintro rfl
            exact absurd (hnone.symm.trans hv) (by simp)
          · exact absurd hstep (by simp)
        · obtain ⟨rfl, -⟩ : _ = s' ∧ [] = es := by simpa using hstep
          exact hnone
      · exact absurd hstep (by simp)
    · exact absurd hstep (by simp)
  | lost k =>
    simp only [SharedClient.step] at hstep
    split at hstep
    · obtain ⟨rfl, -⟩ : _ = s' ∧ [] = es := by simpa using hstep
      exact hnone
    · exact absurd hstep (by simp)
  | stops =>
    obtain ⟨rfl, -⟩ : _ = s' ∧ [] = es := by simpa [SharedClient.step] using hstep
    simp [hnone]

/-- In a run of the first `n` calls an id is fresh when none of these uses it. -/
theorem runOk_freshId {n : Nat} {ls : List (SharedLabel Message)} {s : SharedClient Message}
    (hls : ∀ l ∈ ls, l.below n = true) (hnone : ∀ j, n ≤ j → s.calls j = none)
    (hok : RunOk (SharedClient.step parse) (SharedClient.FreshBelow n) s ls) :
    RunOk (SharedClient.step parse) SharedClient.FreshId s ls := by
  induction ls generalizing s with
  | nil => trivial
  | cons l ls ih =>
    refine ⟨?_, fun s' es hs => ih ?_ ?_ (hok.2 s' es hs)⟩
    · cases l with
      | call k l =>
        intro w hw huse j hjk hj
        by_cases hjn : j < n
        · exact hok.1 w (by simp [hw]) huse j hjn hjk hj
        · obtain ⟨v, hv, -⟩ := hj
          exact absurd (hnone j (by omega) ▸ hv) (by simp)
      | _ => trivial
    · exact fun l hl => hls l (List.mem_cons_of_mem _ hl)
    · exact fun j hj => step_calls_none (hls l (by simp)) hj (hnone j hj) hs

/-- The call sends its request. -/
def requests (k : Nat) (id : Bytes) : List (SharedLabel Nat) :=
  [.thread 0 (.found true), .thread 0 (.generated id), .thread 0 (.serialized true),
    .thread 0 .none, .thread 0 .none, .thread 0 .none, .thread 0 .none, .thread 0 .none,
    .thread 0 .none].map (.call k)

/-- Call `k` begins, with `controller`. -/
def asyncCall (k : Nat) (controller : RpcController) : SharedLabel Nat :=
  .begins k ⟨true, true, false, []⟩ ⟨true, true, true, true⟩ (.callMethod true) controller 0

/-- Two calls with their own ids, whose responses arrive in the other order. -/
def twoCalls : List (SharedLabel Nat) :=
  [asyncCall 0 {}, asyncCall 1 {}] ++ requests 0 [49] ++ requests 1 [50] ++
    [.arrives 1 1 { msgId := [50] }, .call 1 (.thread 1 .none),
      .arrives 0 1 { msgId := [49] }, .call 0 (.thread 1 .none)]

theorem completes_own_two_calls :
    ∃ (s : SharedClient Nat) (es : List (SharedEvent Nat)),
      run (SharedClient.step fun data => (data.length, true)) {} twoCalls = some (s, es) ∧
        .call 0 (.won 1 (.response (.tinyPB { msgId := [49] }))) ∈ es ∧
        .delivered 0 0 1 { msgId := [49] } ∈ es ∧
        ∀ k j t msg, .delivered k j t msg ∈ es → j = k := by
  have hrun : (run (SharedClient.step fun data => (data.length, true)) {} twoCalls).map
      (fun r => decide (.call 0 (.won 1 (.response (.tinyPB { msgId := [49] }))) ∈ r.2 ∧
        .delivered 0 0 1 { msgId := [49] } ∈ r.2)) = some true := by
    decide +kernel
  have hok : RunOk (SharedClient.step fun data => (data.length, true))
      (SharedClient.FreshBelow 2) {} twoCalls := by
    decide +kernel
  obtain ⟨⟨s, es⟩, hs, hdone⟩ := Option.map_eq_some_iff.mp hrun
  obtain ⟨hwon, hdelivered⟩ := of_decide_eq_true hdone
  refine ⟨s, es, hs, hwon, hdelivered, ?_⟩
  exact (completes_own _ hs (runOk_freshId (by decide) (fun _ _ => rfl) hok)).1

/-- A call times out. -/
def timesOut : List (SharedLabel Nat) :=
  [asyncCall 0 {}] ++ requests 0 [49] ++ [.call 0 (.timerFires 1)] ++
    List.replicate 12 (.call 0 (.thread 1 .none))

/-- Another call takes the controller, and the response to the first one arrives. -/
def reuses (controller : RpcController) : List (SharedLabel Nat) :=
  [asyncCall 1 controller] ++ requests 1 [50] ++
    [.arrives 0 1 { msgId := [49] }, .call 1 (.thread 1 .none)]

/-- A call times out, and its controller is used for another call: the late response
    completes the second one. With an id that is set in both controllers, the second call
    takes the callback of the first one, which is still in flight. -/
theorem completes_other :
    (∃ (s₁ s : SharedClient Nat) (w : World Nat) (es₁ es : List (SharedEvent Nat)),
      run (SharedClient.step fun data => (data.length, true)) {} timesOut = some (s₁, es₁) ∧
      s₁.calls 0 = some w ∧ .call 0 (.ran 1 .timer) ∈ es₁ ∧
      run (SharedClient.step fun data => (data.length, true)) s₁ (reuses w.controller) =
        some (s, es) ∧
      .delivered 0 1 1 { msgId := [49] } ∈ es ∧
      .call 1 (.won 1 (.response (.tinyPB { msgId := [49] }))) ∈ es) ∧
    ∃ (s : SharedClient Nat) (es : List (SharedEvent Nat)),
      run (SharedClient.step fun data => (data.length, true)) {}
        ([asyncCall 0 { msgId := [49] }, asyncCall 1 { msgId := [49] }] ++ requests 0 [50] ++
          requests 1 [51]) = some (s, es) ∧ .displaced 0 1 false ∈ es := by
  constructor
  · have hrun : ((run (SharedClient.step fun data => (data.length, true)) {} timesOut).bind
        fun r₁ => (r₁.1.calls 0).bind fun w =>
          (run (SharedClient.step fun data => (data.length, true)) r₁.1 (reuses w.controller)).map
            fun r => decide (.call 0 (.ran 1 .timer) ∈ r₁.2 ∧
              .delivered 0 1 1 { msgId := [49] } ∈ r.2 ∧
              .call 1 (.won 1 (.response (.tinyPB { msgId := [49] }))) ∈ r.2)) = some true := by
      decide +kernel
    obtain ⟨⟨s₁, es₁⟩, hs₁, hrun⟩ := Option.bind_eq_some_iff.mp hrun
    obtain ⟨w, hw, hrun⟩ := Option.bind_eq_some_iff.mp hrun
    obtain ⟨⟨s, es⟩, hs, hdone⟩ := Option.map_eq_some_iff.mp hrun
    obtain ⟨hran, hdelivered, hwon⟩ := of_decide_eq_true hdone
    exact ⟨s₁, s, w, es₁, es, hs₁, hw, hran, hs, hdelivered, hwon⟩
  · have hrun : (run (SharedClient.step fun data => (data.length, true)) {}
        ([asyncCall 0 { msgId := [49] }, asyncCall 1 { msgId := [49] }] ++ requests 0 [50] ++
          requests 1 [51])).map (fun r => decide (.displaced 0 1 false ∈ r.2)) = some true := by
      decide +kernel
    obtain ⟨⟨s, es⟩, hs, hdone⟩ := Option.map_eq_some_iff.mp hrun
    exact ⟨s, es, hs, of_decide_eq_true hdone⟩

end RocketRpc.Rpc
