import RocketRpc.Net.RequestEcho

/-
  `TcpClient::requestSync` returns the answer to its request if the request has an id.

  The callback is registered under the id that the request has before `encode`, which gives a
  request without an id the default one; its answer then comes back under an id that nobody
  waits for. `Seen` is what the steps do with one call, `Turn` the ways in which a step
  changes it, and `Stands` where the call is, with what became of its answer. Of the calls
  whose answer is decoded in time, those return it that have an id and are undisturbed
  (`request_matched_iff`).
-/

namespace RocketRpc.Net

open RocketRpc.Tcp RocketRpc.Coder Machine

def Flight.flying : Flight → Bool
  | .queued | .toServer _ | .toClient _ => true
  | .unsent | .over => false

/-- The call that an event is about. -/
def EchoEvent.call : EchoEvent → Nat
  | .decoded k _ _ => k
  | .returned k _ => k

/-- What the steps do with a call. -/
@[ext] structure Seen where
  place : SyncPlace
  done : Bool
  /-- Its callback is in the table. -/
  entry : Bool
  /-- The message that the loop is about to run its callback with. -/
  held : Option Reply
  flying : Bool
  response : Option Reply

def EchoClient.seen (req : Nat → TinyPBProtocol) (w : EchoClient) (k : Nat) : Seen where
  place := (w.sync.calls k).place
  done := (w.sync.calls k).done
  entry := decide (w.sync.readCallbacks (req k).msgId = some (.sync k))
  held := if w.sync.cb = some (.sync k) then some w.reply else none
  flying := (w.flight k).flying
  response := w.response k

/-- The steps of a run as call `k` sees them, with their events about it, and whether they
    disturb it. -/
inductive Turn (k : Nat) (id : Bytes) (v : Seen) : Seen → List EchoEvent → Bool → Prop
  | idle : Turn k id v v [] false
  | begins : v.place = .out → Turn k id v { v with place := .readMessage } [] false
  | refused : v.place = .out →
      Turn k id v { v with place := .returned } [.returned k none] false
  | registers : v.place = .readMessage →
      Turn k id v { v with place := .send, entry := true } [] false
  | sends : v.place = .send →
      Turn k id v { v with place := .waiting, flying := true } [] false
  | answered : v.place = .waiting → v.done = true →
      Turn k id v { v with place := .returned } [.returned k v.response] false
  | timesOut : v.place = .waiting → v.done = false →
      Turn k id v { v with place := .timedOut } [] v.held.isSome
  | cancels : v.place = .timedOut →
      Turn k id v { v with place := .cancelled, entry := false } [] false
  | givesUp : v.place = .cancelled →
      Turn k id v { v with place := .returned } [.returned k none] false
  | erased : v.entry = true → Turn k id v { v with entry := false } [] true
  | overtaken (r : Reply) : v.entry = true → r.answers ≠ some k →
      Turn k id v { v with entry := false, held := some r } [] true
  | dropped : Turn k id v { v with flying := false } [] false
  | found (r : TinyPBProtocol) : v.flying = true → v.held = none → id ≠ [] → v.entry = true →
      Turn k id v { v with flying := false, entry := false, held := some ⟨some k, r⟩ }
        [.decoded k r (decide (v.place = .waiting))] false
  | missed (r : TinyPBProtocol) : v.flying = true → v.held = none →
      (id = [] ∨ v.entry = false) →
      Turn k id v { v with flying := false } [.decoded k r (decide (v.place = .waiting))] false
  | invoked (r : Reply) : v.held = some r → v.place ≠ .timedOut → v.place ≠ .cancelled →
      Turn k id v { v with held := none, done := true, response := some r } [] false

variable {crc : Bytes → UInt32} {req : Nat → TinyPBProtocol}

/-! ## Turns -/

/-- A step turns `k` as it sees it. -/
def Turns (crc : Bytes → UInt32) (req : Nat → TinyPBProtocol) (k : Nat) (w w' : EchoClient)
    (l : EchoLabel) (es : List EchoEvent) : Prop :=
  ∃ disturbed, Turn k (req k).msgId (w.seen req k) (w'.seen req k)
    (es.filter fun e => e.call == k) disturbed ∧ (w.Undisturbed crc req k l ↔ disturbed = false)

section

variable {w w' : EchoClient} {k : Nat} {l : EchoLabel} {es : List EchoEvent}

theorem turns_of {v : Seen} {τ : List EchoEvent} {disturbed : Bool}
    (h : Turn k (req k).msgId (w.seen req k) v τ disturbed) (hseen : w'.seen req k = v)
    (hes : es.filter (fun e => e.call == k) = τ)
    (hok : w.Undisturbed crc req k l ↔ disturbed = false) : Turns crc req k w w' l es := by
  subst hseen hes
  exact ⟨disturbed, h, hok⟩

theorem turns_idle (hseen : w'.seen req k = w.seen req k)
    (hes : es.filter (fun e => e.call == k) = []) (hok : w.Undisturbed crc req k l) :
    Turns crc req k w w' l es := by
  exact turns_of .idle hseen hes (by simpa using hok)

theorem entry_eq_false_iff : (w.seen req k).entry = false ↔ ¬ w.Awaits req k :=
  decide_eq_false_iff_not

/-- Another call goes on. -/
theorem seen_put {s : SyncClient} {j : Nat} (c : SyncCall) (hjk : k ≠ j) {l : SyncLabel}
    (hcb : s.cb = w.sync.cb) (hcalls : s.calls = w.sync.calls)
    (hsends : w.sends l k = w.flight k) (hstores : w.stores l k = w.response k) :
    ({ w with sync := s.put j c, flight := w.sends l, response := w.stores l } :
      EchoClient).seen req k = { w.seen req k with
        entry := decide (s.readCallbacks (req k).msgId = some (.sync k)) } := by
  have hcall : (s.put j c).calls k = w.sync.calls k := by rw [calls_put, if_neg hjk, hcalls]
  refine Seen.ext (congrArg SyncCall.place hcall) (congrArg SyncCall.done hcall) rfl ?_
    (congrArg Flight.flying hsends) hstores
  exact if_congr (by rw [← hcb]; rfl) rfl rfl

theorem sends_of_ne {j : Nat} (hjk : k ≠ j) : w.sends (.goOn j) k = w.flight k := by
  rcases w.sends_cases (.goOn j) with hsame | ⟨i, hi, -, hsends⟩
  · rw [hsame]
  · obtain rfl := SyncLabel.goOn.inj hi
    rw [hsends, Function.update_of_ne hjk]

/-- The table after others wrote something under an id. -/
theorem turns_written {id : Bytes} {cb : Option ReadCallback} (hcb : cb ≠ some (.sync k))
    (hseen : w'.seen req k = { w.seen req k with
      entry := decide (Function.update w.sync.readCallbacks id cb (req k).msgId =
        some (.sync k)) })
    (hes : es.filter (fun e => e.call == k) = [])
    (hok : w.Undisturbed crc req k l ↔ (id = (req k).msgId → ¬ w.Awaits req k)) :
    Turns crc req k w w' l es := by
  by_cases hid : id = (req k).msgId
  · subst hid
    rw [Function.update_self, decide_eq_false hcb] at hseen
    by_cases hentry : w.Awaits req k
    · refine turns_of (.erased (decide_eq_true hentry)) hseen hes ?_
      rw [hok]
      simpa using hentry
    · refine turns_idle ?_ hes (hok.mpr fun _ => hentry)
      rw [hseen, ← entry_eq_false_iff.mpr hentry]
  · rw [Function.update_of_ne (Ne.symm hid)] at hseen
    exact turns_idle hseen hes (hok.mpr fun heq => absurd heq hid)

/-- Call `k` itself goes on. -/
theorem seen_own (s : SyncClient) (c : SyncCall) (l : SyncLabel) :
    ({ w with sync := s.put k c, flight := w.sends l, response := w.stores l } :
      EchoClient).seen req k =
        { place := c.place
          done := c.done
          entry := decide (s.readCallbacks (req k).msgId = some (.sync k))
          held := if s.cb = some (.sync k) then some w.reply else none
          flying := (w.sends l k).flying
          response := w.stores l k } := by
  have hcall : (s.put k c).calls k = c := by rw [calls_put, if_pos rfl]
  exact Seen.ext (congrArg SyncCall.place hcall) (congrArg SyncCall.done hcall) rfl rfl rfl rfl

/-- The call that goes on in a step. -/
def SyncLabel.caller : SyncLabel → Option Nat
  | .call k _ | .goOn k | .timeout k => some k
  | .message _ | .invoke | .readMessage _ | .cancelRead _ | .stop => none

/-- Call `k` goes on in its own steps. -/
theorem SyncMove.own {s : SyncClient} {l : SyncLabel} {es : List SyncEvent}
    (hs : SyncMove (EchoClient.msgId req) w.sync l s es) (hl : l.caller = some k) :
    Turns crc req k w { w with sync := s, flight := w.sends l, response := w.stores l } (.sync l)
      (es.flatMap w.shows) := by
  cases hs with
  | begins j hplace =>
    obtain rfl : j = k := Option.some.inj hl
    exact turns_of (.begins hplace) (seen_own _ _ _) rfl (by simp [EchoClient.Undisturbed])
  | refused j hplace =>
    obtain rfl : j = k := Option.some.inj hl
    exact turns_of (.refused hplace) (seen_own _ _ _)
      (by simp [EchoClient.shows, EchoEvent.call]) (by simp [EchoClient.Undisturbed])
  | registers j hplace =>
    obtain rfl : j = k := Option.some.inj hl
    refine turns_of (.registers hplace) ?_ rfl (by simp [EchoClient.Undisturbed])
    rw [seen_own]
    refine Seen.ext rfl rfl ?_ rfl ?_ rfl
    · exact decide_eq_true (Function.update_self _ _ _)
    · simp [EchoClient.sends, EchoClient.seen, hplace]
  | sends j hplace =>
    obtain rfl : j = k := Option.some.inj hl
    refine turns_of (.sends hplace) ?_ rfl (by simp [EchoClient.Undisturbed])
    rw [seen_own]
    refine Seen.ext rfl rfl rfl rfl ?_ rfl
    simp [EchoClient.sends, hplace, Flight.flying]
  | answered j hplace hdone =>
    obtain rfl : j = k := Option.some.inj hl
    refine turns_of (.answered hplace hdone) ?_ ?_ (by simp [EchoClient.Undisturbed])
    · rw [seen_own]
      refine Seen.ext rfl rfl rfl rfl ?_ rfl
      simp [EchoClient.sends, EchoClient.seen, hplace]
    · simp [EchoClient.shows, EchoEvent.call, EchoClient.seen]
  | cancels j hplace =>
    obtain rfl : j = k := Option.some.inj hl
    refine turns_of (.cancels hplace) ?_ rfl (by simp [EchoClient.Undisturbed])
    rw [seen_own]
    refine Seen.ext rfl rfl ?_ rfl ?_ rfl
    · refine decide_eq_false ?_
      simp [EchoClient.msgId]
    · simp [EchoClient.sends, EchoClient.seen, hplace]
  | givesUp j hplace =>
    obtain rfl : j = k := Option.some.inj hl
    refine turns_of (.givesUp hplace) ?_ ?_ (by simp [EchoClient.Undisturbed])
    · rw [seen_own]
      refine Seen.ext rfl rfl rfl rfl ?_ rfl
      simp [EchoClient.sends, EchoClient.seen, hplace]
    · simp [EchoClient.shows, EchoEvent.call]
  | timesOut j hplace hdone =>
    obtain rfl : j = k := Option.some.inj hl
    refine turns_of (.timesOut hplace hdone) (seen_own _ _ _) rfl ?_
    simp only [EchoClient.Undisturbed, EchoClient.seen]
    split <;> simp_all
  | message | invoked | invokedOther | readMessage | cancelRead | stop =>
    exact absurd hl (by simp [SyncLabel.caller])

theorem filter_self {e : EchoEvent} (h : e.call = k) :
    [e].filter (fun e => e.call == k) = [e] := by
  simp [h]

theorem returned_ne {j : Nat} (hjk : k ≠ j) (x : Option Reply) :
    [EchoEvent.returned j x].filter (fun e => e.call == k) = [] := by
  simp [EchoEvent.call, hjk.symm]

/-- Another call goes on in its own steps. -/
theorem SyncMove.other {s : SyncClient} {l : SyncLabel} {es : List SyncEvent} {i : Nat}
    (hs : SyncMove (EchoClient.msgId req) w.sync l s es) (hl : l.caller = some i) (hik : k ≠ i) :
    Turns crc req k w { w with sync := s, flight := w.sends l, response := w.stores l } (.sync l)
      (es.flatMap w.shows) := by
  cases hs with
  | begins j hplace =>
    obtain rfl : j = i := Option.some.inj hl
    exact turns_idle (seen_put _ hik rfl rfl rfl rfl) rfl (by simp [EchoClient.Undisturbed])
  | refused j hplace =>
    obtain rfl : j = i := Option.some.inj hl
    exact turns_idle (seen_put _ hik rfl rfl rfl rfl) (returned_ne hik _)
      (by simp [EchoClient.Undisturbed])
  | registers j hplace =>
    obtain rfl : j = i := Option.some.inj hl
    refine turns_written ?_ (seen_put _ hik rfl rfl (sends_of_ne hik) rfl) rfl ?_
    · simpa using hik.symm
    · simp [EchoClient.Undisturbed, hplace, hik.symm, EchoClient.msgId]
  | cancels j hplace =>
    obtain rfl : j = i := Option.some.inj hl
    refine turns_written ?_ (seen_put _ hik rfl rfl (sends_of_ne hik) rfl) rfl ?_
    · simp
    · simp [EchoClient.Undisturbed, hplace, hik.symm, EchoClient.msgId]
  | sends j hplace =>
    obtain rfl : j = i := Option.some.inj hl
    exact turns_idle (seen_put _ hik rfl rfl (sends_of_ne hik) rfl) rfl
      (by simp [EchoClient.Undisturbed, hplace])
  | answered j hplace hdone =>
    obtain rfl : j = i := Option.some.inj hl
    exact turns_idle (seen_put _ hik rfl rfl (sends_of_ne hik) rfl) (returned_ne hik _)
      (by simp [EchoClient.Undisturbed, hplace])
  | givesUp j hplace =>
    obtain rfl : j = i := Option.some.inj hl
    exact turns_idle (seen_put _ hik rfl rfl (sends_of_ne hik) rfl) (returned_ne hik _)
      (by simp [EchoClient.Undisturbed, hplace])
  | timesOut j hplace hdone =>
    obtain rfl : j = i := Option.some.inj hl
    exact turns_idle (seen_put _ hik rfl rfl rfl rfl) rfl
      (by simp [EchoClient.Undisturbed, hik.symm])
  | message | invoked | invokedOther | readMessage | cancelRead | stop =>
    exact absurd hl (by simp [SyncLabel.caller])

theorem held_eq_none {cb : Option ReadCallback} (hcb : w.sync.cb = cb)
    (hne : cb ≠ some (.sync k)) : (w.seen req k).held = none :=
  if_neg fun heq => hne (hcb.symm.trans heq)

/-- The loop runs a callback that it found, or others use the table. -/
theorem SyncMove.aside {s : SyncClient} {l : SyncLabel} {es : List SyncEvent}
    (hs : SyncMove (EchoClient.msgId req) w.sync l s es) (hl : l.caller = none)
    (hmessage : ∀ id, l ≠ .message id) :
    Turns crc req k w { w with sync := s, flight := w.sends l, response := w.stores l } (.sync l)
      (es.flatMap w.shows) := by
  cases hs with
  | begins | refused | registers | cancels | sends | answered | givesUp | timesOut =>
    exact absurd hl (by simp [SyncLabel.caller])
  | message id => exact absurd rfl (hmessage id)
  | invoked j hcb hlocked =>
    by_cases hjk : k = j
    · subst hjk
      obtain ⟨htimedOut, hcancelled⟩ : (w.sync.calls k).place ≠ .timedOut ∧
          (w.sync.calls k).place ≠ .cancelled := by simpa [SyncClient.locked] using hlocked
      refine turns_of (.invoked w.reply (if_pos hcb) htimedOut hcancelled) ?_ rfl
        (by simp [EchoClient.Undisturbed])
      rw [seen_own]
      refine Seen.ext rfl rfl rfl rfl rfl ?_
      simp [EchoClient.stores, hcb]
    · have hstores : w.stores .invoke k = w.response k := by
        simp only [EchoClient.stores, hcb]
        exact Function.update_of_ne hjk _ _
      have hheld : (w.seen req k).held = none :=
        held_eq_none hcb (by simpa using Ne.symm hjk)
      have hcall : (({ w.sync with cb := none } : SyncClient).put j
          { w.sync.calls j with done := true }).calls k = w.sync.calls k := by
        rw [calls_put, if_neg hjk]
      refine turns_idle ?_ rfl (by simp [EchoClient.Undisturbed])
      exact Seen.ext (congrArg SyncCall.place hcall) (congrArg SyncCall.done hcall) rfl
        hheld.symm rfl hstores
  | invokedOther hcb =>
    have hheld : (w.seen req k).held = none := held_eq_none hcb (by simp)
    refine turns_idle ?_ rfl (by simp [EchoClient.Undisturbed])
    refine Seen.ext rfl rfl rfl hheld.symm rfl ?_
    simp [EchoClient.stores, hcb, EchoClient.seen]
  | readMessage id =>
    refine turns_written ?_ rfl rfl Iff.rfl
    simp
  | cancelRead id =>
    refine turns_written ?_ rfl rfl Iff.rfl
    simp
  | stop =>
    have hnone : decide ((none : Option ReadCallback) = some (.sync k)) = false := by simp
    by_cases hentry : w.Awaits req k
    · refine turns_of (.erased (decide_eq_true hentry)) ?_ rfl
        (by simp [EchoClient.Undisturbed, hentry])
      exact Seen.ext rfl rfl hnone rfl rfl rfl
    · refine turns_idle ?_ rfl hentry
      refine Seen.ext rfl rfl ?_ rfl rfl rfl
      rw [entry_eq_false_iff.mpr hentry]
      exact hnone

theorem SyncMove.turns {s : SyncClient} {l : SyncLabel} {es : List SyncEvent}
    (hs : SyncMove (EchoClient.msgId req) w.sync l s es) (hl : ∀ id, l ≠ .message id) :
    Turns crc req k w { w with sync := s, flight := w.sends l, response := w.stores l } (.sync l)
      (es.flatMap w.shows) := by
  cases hcaller : l.caller with
  | none => exact hs.aside hcaller hl
  | some i =>
    by_cases hik : k = i
    · exact hs.own (hik ▸ hcaller)
    · exact hs.other hcaller hik

/-- What call `k` sees of a message that does not take its callback. -/
theorem found_held {r : Reply} (hr : Routed crc req w)
    (hmiss : r.msg.msgId = (req k).msgId → ¬ w.Awaits req k) :
    (w.found r).sync.cb ≠ some (.sync k) ∧
      decide ((w.found r).sync.readCallbacks (req k).msgId = some (.sync k)) =
        (w.seen req k).entry := by
  constructor
  · intro hcb
    have hid := hr.table _ _ hcb
    refine hmiss hid ?_
    rw [EchoClient.Awaits, EchoClient.msgId, ← hid]
    exact hcb
  · have htable : (w.found r).sync.readCallbacks =
        Function.update w.sync.readCallbacks r.msg.msgId none := rfl
    by_cases hid : (req k).msgId = r.msg.msgId
    · rw [entry_eq_false_iff.mpr (hmiss hid.symm)]
      refine decide_eq_false ?_
      rw [htable, hid, Function.update_self]
      simp
    · refine decide_eq_decide.mpr ?_
      rw [htable, Function.update_of_ne hid]

/-- A message that answers another request, or none. -/
theorem found_turns (hr : Routed crc req w) (hcb : w.sync.cb = none) {r : Reply}
    (hr' : r.answers ≠ some k) {flight : Nat → Flight} (hflight : flight k = w.flight k)
    (hes : es.filter (fun e => e.call == k) = [])
    (hok : w.Undisturbed crc req k l ↔ (r.msg.msgId = (req k).msgId → ¬ w.Awaits req k)) :
    Turns crc req k w { w.found r with flight := flight } l es := by
  have hheld : (w.seen req k).held = none := held_eq_none hcb (by simp)
  by_cases hmiss : r.msg.msgId = (req k).msgId → ¬ w.Awaits req k
  · obtain ⟨hcb', hentry⟩ := found_held hr hmiss
    refine turns_idle ?_ hes (hok.mpr hmiss)
    exact Seen.ext rfl rfl hentry ((if_neg hcb').trans hheld.symm)
      (congrArg Flight.flying hflight) rfl
  · obtain ⟨hid, hawaits⟩ := Classical.not_imp.mp hmiss
    rw [Classical.not_not] at hawaits
    refine turns_of (.overtaken r (decide_eq_true hawaits) hr') ?_ hes ?_
    · refine Seen.ext rfl rfl (decide_eq_false ?_) (if_pos ?_) (congrArg Flight.flying hflight) rfl
      · rw [← hid]
        simp [EchoClient.found]
      · rw [EchoClient.Awaits, EchoClient.msgId, ← hid] at hawaits
        exact hawaits
    · rw [hok]
      simpa [hid] using hawaits

theorem withMsgId_ne_nil (m : TinyPBProtocol) : (withMsgId m).msgId ≠ [] := by
  unfold withMsgId
  split
  · exact (by decide +kernel : defaultMsgId ≠ [])
  · assumption

/-- The answer to call `k`. -/
theorem answer_turns (hr : Routed crc req w) (hcb : w.sync.cb = none) {r : TinyPBProtocol}
    (hans : w.answer crc k = some r) :
    Turns crc req k w
      { w.found ⟨some k, r⟩ with flight := Function.update w.flight k .over } (.decode k)
      [.decoded k r (decide ((w.sync.calls k).place = .waiting))] := by
  have hheld : (w.seen req k).held = none := held_eq_none hcb (by simp)
  have hflying : (w.seen req k).flying = true := by
    rw [EchoClient.answer] at hans
    split at hans
    · rename_i frame hflight
      exact congrArg Flight.flying hflight
    · exact absurd hans (by simp)
  have hover : (Function.update w.flight k Flight.over k).flying = false := by
    rw [Function.update_self]
    rfl
  have hid := hr.answer k r hans
  have hok : w.Undisturbed crc req k (.decode k) ↔ false = false := by
    simp [EchoClient.Undisturbed]
  by_cases hmiss : r.msgId = (req k).msgId → ¬ w.Awaits req k
  · obtain ⟨hcb', hentry⟩ := found_held (r := ⟨some k, r⟩) hr hmiss
    refine turns_of (.missed r hflying hheld ?_) ?_ (filter_self rfl) hok
    · by_cases hempty : (req k).msgId = []
      · exact Or.inl hempty
      · rw [withMsgId, if_neg hempty] at hid
        exact Or.inr (entry_eq_false_iff.mpr (hmiss hid))
    · exact Seen.ext rfl rfl hentry ((if_neg hcb').trans hheld.symm) hover rfl
  · obtain ⟨hsame, hawaits⟩ := Classical.not_imp.mp hmiss
    rw [Classical.not_not] at hawaits
    have hne : (req k).msgId ≠ [] := by
      intro hempty
      rw [hsame, hempty] at hid
      exact withMsgId_ne_nil (req k) hid.symm
    refine turns_of (.found r hflying hheld hne (decide_eq_true hawaits)) ?_
      (filter_self rfl) hok
    refine Seen.ext rfl rfl (decide_eq_false ?_) (if_pos ?_) hover rfl
    · rw [← hsame]
      simp [EchoClient.found]
    · rw [EchoClient.Awaits, EchoClient.msgId, ← hsame] at hawaits
      exact hawaits

theorem EchoMove.turns (hm : EchoMove crc req w l w' es) (hr : Routed crc req w) :
    Turns crc req k w w' l es := by
  have hsame : ∀ {j : Nat} (f : Flight), k ≠ j → Function.update w.flight j f k = w.flight k :=
    fun f hjk => by rw [Function.update_of_ne hjk]
  cases hm with
  | sync hs hl => exact hs.turns hl
  | encode j out hqueued =>
    by_cases hjk : k = j
    · subst hjk
      rcases sent_cases crc (req k) out with hsent | ⟨frame, hsent, -⟩
      · refine turns_of .dropped (Seen.ext rfl rfl rfl rfl ?_ rfl) rfl
          (by simp [EchoClient.Undisturbed])
        simp [EchoClient.seen, hsent, Flight.flying]
      · refine turns_idle (Seen.ext rfl rfl rfl rfl ?_ rfl) rfl trivial
        simp [EchoClient.seen, hsent, hqueued, Flight.flying]
    · exact turns_idle (Seen.ext rfl rfl rfl rfl (congrArg Flight.flying (hsame _ hjk)) rfl) rfl
        trivial
  | serve j frame request m r hflight hrequest hframe hid =>
    by_cases hjk : k = j
    · subst hjk
      refine turns_idle (Seen.ext rfl rfl rfl rfl ?_ rfl) rfl trivial
      simp [EchoClient.seen, hflight, Flight.flying]
    · exact turns_idle (Seen.ext rfl rfl rfl rfl (congrArg Flight.flying (hsame _ hjk)) rfl) rfl
        trivial
  | decode j r hans hcb =>
    by_cases hjk : k = j
    · subst hjk
      exact answer_turns hr hcb hans
    · refine found_turns hr hcb ?_ (hsame _ hjk) ?_ ?_
      · simpa using Ne.symm hjk
      · simp [EchoEvent.call, Ne.symm hjk]
      · simp [EchoClient.Undisturbed, Ne.symm hjk, hans, EchoClient.msgId]
  | message msg hcb => exact found_turns hr hcb (by simp) rfl rfl Iff.rfl

end

/-! ## Where a call is -/

/-- The wait of a call can still end with an answer. -/
def Seen.Open (v : Seen) : Prop := v.place = .send ∨ v.place = .waiting

/-- Where call `k` with this id is, after its events `τ`; `ok` says that it was not disturbed. -/
inductive Stands (k : Nat) (id : Bytes) (ok : Prop) (v : Seen) (τ : List EchoEvent) : Prop
  | fresh : ok → v.place = .out ∨ v.place = .readMessage → v.entry = false → v.held = none →
      v.flying = false → v.done = false → τ = [] → Stands k id ok v τ
  | registered : ok → v.place = .send → v.entry = true → v.held = none → v.flying = false →
      v.done = false → τ = [] → Stands k id ok v τ
  | waits : ok → v.place = .waiting → v.entry = true → v.held = none → v.done = false →
      τ = [] → Stands k id ok v τ
  /-- The answer to a request without an id finds nobody. -/
  | unmatched (r : TinyPBProtocol) : ok → id = [] → v.place = .waiting → v.entry = true →
      v.held = none → v.done = false → v.flying = false → τ = [.decoded k r true] →
      Stands k id ok v τ
  | taken (r : TinyPBProtocol) : ok → id ≠ [] → v.place = .waiting → v.entry = false →
      v.held = some ⟨some k, r⟩ → v.done = false → v.flying = false → τ = [.decoded k r true] →
      Stands k id ok v τ
  | answered (r : TinyPBProtocol) : ok → id ≠ [] → v.place = .waiting → v.entry = false →
      v.held = none → v.done = true → v.response = some ⟨some k, r⟩ → v.flying = false →
      τ = [.decoded k r true] → Stands k id ok v τ
  | returned (r : TinyPBProtocol) : ok → id ≠ [] → v.place = .returned → v.entry = false →
      v.held = none → v.flying = false →
      τ = [.decoded k r true, .returned k (some ⟨some k, r⟩)] → Stands k id ok v τ
  /-- No answer was decoded in time. -/
  | late : v.place = .timedOut ∨ v.place = .cancelled ∨ v.place = .returned →
      (∀ r, .decoded k r true ∉ τ) → (∀ x, .returned k x ∈ τ → x = none) → Stands k id ok v τ
  /-- It has no id or was disturbed, and gets no answer of its own. -/
  | lost : ¬ (ok ∧ id ≠ []) → v.place ≠ .out → v.place ≠ .readMessage →
      (v.Open → (∀ r, v.held = some r → r.answers ≠ some k) ∧
        (v.done = true → ∀ r, v.response = some r → r.answers ≠ some k) ∧
        (v.entry = true → id = [])) →
      (∀ r, .returned k (some ⟨some k, r⟩) ∉ τ) → Stands k id ok v τ

section

variable {k : Nat} {id : Bytes} {ok : Prop} {v v' : Seen} {τ τ' : List EchoEvent}
  {disturbed : Bool}

/-- The callback is gone, without an answer. -/
theorem Stands.robbed (hplace : v.Open) (hheld : ∀ r, v.held = some r → r.answers ≠ some k)
    (hdone : v.done = false) (hentry : v.entry = false)
    (hret : ∀ r, .returned k (some ⟨some k, r⟩) ∉ τ) :
    Stands k id (ok ∧ true = false) v τ := by
  refine .lost (by simp) ?_ ?_ (fun _ => ⟨hheld, ?_, ?_⟩) hret
  · rcases hplace with hp | hp <;> simp [hp]
  · rcases hplace with hp | hp <;> simp [hp]
  · simp [hdone]
  · simp [hentry]

theorem Stands.stayLate (hplace : v.place = .timedOut ∨ v.place = .cancelled ∨ v.place = .returned)
    (hdec : ∀ r, .decoded k r true ∉ τ) (hret : ∀ x, .returned k x ∈ τ → x = none)
    (hturn : Turn k id v v' τ' disturbed) : Stands k id ok v' (τ ++ τ') := by
  have hplace' : v'.place = .timedOut ∨ v'.place = .cancelled ∨ v'.place = .returned := by
    cases hturn with
    | cancels h => exact Or.inr (Or.inl rfl)
    | givesUp h => exact Or.inr (Or.inr rfl)
    | begins h | refused h | registers h | sends h | answered h | timesOut h => simp_all
    | _ => exact hplace
  have hevents : (∀ r, .decoded k r true ∉ τ') ∧ ∀ x, .returned k x ∈ τ' → x = none := by
    cases hturn with
    | answered h => simp_all
    | found r | missed r => rcases hplace with hp | hp | hp <;> simp [hp]
    | _ => simp
  refine .late hplace' (fun r hr => ?_) (fun x hx => ?_)
  · exact (List.mem_append.mp hr).elim (hdec r) (hevents.1 r)
  · exact (List.mem_append.mp hx).elim (hret x) (hevents.2 x)

theorem Stands.stayLost (hok : ¬ (ok ∧ id ≠ [])) (hout : v.place ≠ .out)
    (hread : v.place ≠ .readMessage)
    (hopen : v.Open → (∀ r, v.held = some r → r.answers ≠ some k) ∧
      (v.done = true → ∀ r, v.response = some r → r.answers ≠ some k) ∧
      (v.entry = true → id = []))
    (hret : ∀ r, .returned k (some ⟨some k, r⟩) ∉ τ) (hturn : Turn k id v v' τ' disturbed) :
    Stands k id ok v' (τ ++ τ') := by
  have hret' : ∀ r, .returned k (some ⟨some k, r⟩) ∉ τ' := by
    intro r hr
    cases hturn with
    | answered h hdone =>
      obtain ⟨-, hresp⟩ := EchoEvent.returned.inj (List.mem_singleton.mp hr)
      exact (hopen (Or.inr h)).2.1 hdone _ hresp.symm rfl
    | _ => simp at hr
  have hplace : v'.place ≠ .out ∧ v'.place ≠ .readMessage := by
    cases hturn with
    | begins h | registers h => simp_all
    | refused | sends | answered | timesOut | cancels | givesUp => simp
    | _ => exact ⟨hout, hread⟩
  refine .lost hok hplace.1 hplace.2 (fun hopen' => ?_) fun r hr =>
    (List.mem_append.mp hr).elim (hret r) (hret' r)
  cases hturn with
  | sends h => exact hopen (Or.inl h)
  | erased h => exact ⟨(hopen hopen').1, (hopen hopen').2.1, by simp⟩
  | overtaken r h hr => exact ⟨by simpa using hr, (hopen hopen').2.1, by simp⟩
  | found r _ _ hid hentry => exact absurd ((hopen hopen').2.2 hentry) hid
  | invoked r hheld =>
    refine ⟨by simp, fun _ r' hr' => ?_, (hopen hopen').2.2⟩
    obtain rfl := Option.some.inj hr'
    exact (hopen hopen').1 _ hheld
  | begins h => exact absurd h hout
  | registers h => exact absurd h hread
  | refused | answered | timesOut | cancels | givesUp => simp [Seen.Open] at hopen'
  | idle | dropped | missed => exact hopen hopen'

theorem Stands.turn (h : Stands k id ok v τ) (hturn : Turn k id v v' τ' disturbed) :
    Stands k id (ok ∧ disturbed = false) v' (τ ++ τ') := by
  cases h with
  | fresh hok hplace hentry hheld hflying hdone hτ =>
    subst hτ
    cases hturn with
    | idle => exact .fresh ⟨hok, rfl⟩ hplace hentry hheld hflying hdone rfl
    | begins h => exact .fresh ⟨hok, rfl⟩ (Or.inr rfl) hentry hheld hflying hdone rfl
    | refused h => exact .late (Or.inr (Or.inr rfl)) (by simp) (by simp)
    | registers h => exact .registered ⟨hok, rfl⟩ rfl rfl hheld hflying hdone rfl
    | dropped => exact .fresh ⟨hok, rfl⟩ hplace hentry hheld rfl hdone rfl
    | _ => simp_all
  | registered hok hplace hentry hheld hflying hdone hτ =>
    subst hτ
    cases hturn with
    | idle => exact .registered ⟨hok, rfl⟩ hplace hentry hheld hflying hdone rfl
    | sends h => exact .waits ⟨hok, rfl⟩ rfl hentry hheld hdone rfl
    | erased h => exact .robbed (Or.inl hplace) (by simp [hheld]) hdone rfl (by simp)
    | overtaken r' h hr => exact .robbed (Or.inl hplace) (by simpa using hr) hdone rfl (by simp)
    | dropped => exact .registered ⟨hok, rfl⟩ hplace hentry hheld rfl hdone rfl
    | _ => simp_all
  | waits hok hplace hentry hheld hdone hτ =>
    subst hτ
    cases hturn with
    | idle => exact .waits ⟨hok, rfl⟩ hplace hentry hheld hdone rfl
    | timesOut h _ => exact .late (Or.inl rfl) (by simp) (by simp)
    | erased h => exact .robbed (Or.inr hplace) (by simp [hheld]) hdone rfl (by simp)
    | overtaken r' h hr => exact .robbed (Or.inr hplace) (by simpa using hr) hdone rfl (by simp)
    | dropped => exact .waits ⟨hok, rfl⟩ hplace hentry hheld hdone rfl
    | found r _ _ hid _ =>
      exact .taken r ⟨hok, rfl⟩ hid hplace rfl rfl hdone rfl (by simp [hplace])
    | missed r _ _ hid =>
      have hid : id = [] := hid.resolve_right (by simp [hentry])
      exact .unmatched r ⟨hok, rfl⟩ hid hplace hentry hheld hdone rfl (by simp [hplace])
    | _ => simp_all
  | unmatched r hok hid hplace hentry hheld hdone hflying hτ =>
    subst hτ
    cases hturn with
    | idle => exact .unmatched r ⟨hok, rfl⟩ hid hplace hentry hheld hdone hflying rfl
    | timesOut h _ =>
      exact .lost (by simp [hid]) (by simp) (by simp) (fun hopen => by simp [Seen.Open] at hopen)
        (by simp)
    | erased h => exact .robbed (Or.inr hplace) (by simp [hheld]) hdone rfl (by simp)
    | overtaken r' h hr => exact .robbed (Or.inr hplace) (by simpa using hr) hdone rfl (by simp)
    | dropped => exact .unmatched r ⟨hok, rfl⟩ hid hplace hentry hheld hdone rfl rfl
    | _ => simp_all
  | taken r hok hid hplace hentry hheld hdone hflying hτ =>
    subst hτ
    cases hturn with
    | idle => exact .taken r ⟨hok, rfl⟩ hid hplace hentry hheld hdone hflying rfl
    | timesOut h _ =>
      exact .lost (by simp [hheld]) (by simp) (by simp) (fun hopen => by simp [Seen.Open] at hopen)
        (by simp)
    | dropped => exact .taken r ⟨hok, rfl⟩ hid hplace hentry hheld hdone rfl rfl
    | invoked r' h =>
      obtain rfl : _ = r' := Option.some.inj (hheld.symm.trans h)
      exact .answered r ⟨hok, rfl⟩ hid hplace hentry rfl rfl rfl hflying rfl
    | _ => simp_all
  | answered r hok hid hplace hentry hheld hdone hresp hflying hτ =>
    subst hτ
    cases hturn with
    | idle => exact .answered r ⟨hok, rfl⟩ hid hplace hentry hheld hdone hresp hflying rfl
    | answered h _ =>
      exact .returned r ⟨hok, rfl⟩ hid rfl hentry hheld hflying (by rw [hresp]; rfl)
    | dropped => exact .answered r ⟨hok, rfl⟩ hid hplace hentry hheld hdone hresp rfl rfl
    | _ => simp_all
  | returned r hok hid hplace hentry hheld hflying hτ =>
    subst hτ
    cases hturn with
    | idle => exact .returned r ⟨hok, rfl⟩ hid hplace hentry hheld hflying rfl
    | dropped => exact .returned r ⟨hok, rfl⟩ hid hplace hentry hheld rfl rfl
    | _ => simp_all
  | late hplace hdec hret => exact .stayLate hplace hdec hret hturn
  | lost hok hout hread hopen hret =>
    exact .stayLost (fun hboth => hok ⟨hboth.1.1, hboth.2⟩) hout hread hopen hret hturn

end

/-! ## Runs -/

theorem run_stands {ls : List EchoLabel} {w : EchoClient} {tr : List EchoEvent}
    (hrun : run (EchoClient.step crc req) {} ls = some (w, tr)) :
    Routed crc req w ∧ ∀ k, Stands k (req k).msgId
      (RunOk (EchoClient.step crc req) (EchoClient.Undisturbed crc req k) {} ls) (w.seen req k)
      (tr.filter fun e => e.call == k) := by
  refine runOk_history (fun ls w tr => Routed crc req w ∧ ∀ k, Stands k (req k).msgId
      (RunOk (EchoClient.step crc req) (EchoClient.Undisturbed crc req k) {} ls) (w.seen req k)
      (tr.filter fun e => e.call == k)) ?_ ?_ (runOk_true {} ls) hrun
  · intro ls u tr l u' es hls ⟨hrouted, hstands⟩ _ hs
    have hm := step_echoMove hs
    refine ⟨hm.routed hrouted, fun k => ?_⟩
    obtain ⟨disturbed, hturn, hok⟩ := hm.turns (k := k) hrouted
    rw [runOk_concat hls, hok, List.filter_append]
    exact (hstands k).turn hturn
  · refine ⟨⟨by simp, by simp, by simp [EchoClient.answer]⟩, fun k => ?_⟩
    exact .fresh trivial (Or.inl rfl) (by simp [EchoClient.seen]) (by simp [EchoClient.seen]) rfl
      rfl rfl

/-- A call that has its answer returns it. -/
theorem goOn_returns {w : EchoClient} {k : Nat} (hplace : (w.sync.calls k).place = .waiting)
    (hdone : (w.sync.calls k).done = true) :
    ∃ w', w.step crc req (.sync (.goOn k)) = some (w', [.returned k (w.response k)]) := by
  simp [EchoClient.step, SyncClient.step, SyncClient.goOn, hplace, hdone, EchoClient.shows]

theorem invoke_answers {w : EchoClient} {k : Nat} (hcb : w.sync.cb = some (.sync k))
    (hplace : (w.sync.calls k).place = .waiting) :
    ∃ w', w.step crc req (.sync .invoke) = some (w', []) ∧
      (w'.sync.calls k).place = .waiting ∧ (w'.sync.calls k).done = true ∧
      w'.response k = some w.reply := by
  have hlocked : w.sync.locked k = false := by simp [SyncClient.locked, hplace]
  simp [EchoClient.step, SyncClient.step, SyncClient.put, hcb, hlocked, hplace, EchoClient.shows,
    EchoClient.stores]

/-- The message that the loop holds the callback of call `k` with. -/
theorem held_eq_some {w : EchoClient} {k : Nat} {r : Reply}
    (h : (w.seen req k).held = some r) : w.sync.cb = some (.sync k) ∧ w.reply = r := by
  have hheld : (if w.sync.cb = some (.sync k) then some w.reply else none) = some r := h
  split at hheld
  · rename_i hcb
    exact ⟨hcb, Option.some.inj hheld⟩
  · exact absurd hheld (by simp)

/-- A call whose answer is decoded before its wait is over returns this answer exactly if its
    request has an id and it was not disturbed; and if so it can go on and return, unless it
    has returned. -/
theorem request_matched_iff (crc : Bytes → UInt32) (req : Nat → TinyPBProtocol)
    (ls : List EchoLabel) (w : EchoClient) (tr : List EchoEvent) (k : Nat) (r : TinyPBProtocol)
    (hrun : run (EchoClient.step crc req) {} ls = some (w, tr)) (hdec : .decoded k r true ∈ tr) :
    (∀ x, .returned k x ∈ tr → (x = some ⟨some k, r⟩ ↔ (req k).msgId ≠ [] ∧
      RunOk (EchoClient.step crc req) (EchoClient.Undisturbed crc req k) {} ls)) ∧
    ((req k).msgId ≠ [] →
      RunOk (EchoClient.step crc req) (EchoClient.Undisturbed crc req k) {} ls →
      (∀ x, .returned k x ∉ tr) → ∃ ls' w', run (EchoClient.step crc req) w ls' =
        some (w', [.returned k (some ⟨some k, r⟩)])) := by
  have hstands := (run_stands hrun).2 k
  have hmem : ∀ e : EchoEvent, e.call = k → e ∈ tr → e ∈ tr.filter fun e => e.call == k :=
    fun e he htr => List.mem_filter.mpr ⟨htr, by simp [he]⟩
  have hdec' := hmem _ rfl hdec
  constructor
  · intro x hx
    have hx' := hmem _ rfl hx
    cases hstands with
    | fresh | registered | waits | unmatched | taken | answered => simp_all
    | returned r' hok hid hplace hentry hheld hflying hτ =>
      rw [hτ] at hdec' hx'
      obtain rfl : r = r' := by simpa using hdec'
      obtain rfl : x = some ⟨some k, r⟩ := by simpa using hx'
      exact ⟨fun _ => ⟨hid, hok⟩, fun _ => rfl⟩
    | late hplace hdec hret => exact absurd hdec' (hdec r)
    | lost hok hout hread hopen hret =>
      refine ⟨fun heq => absurd hx' (heq ▸ hret r), fun hboth => absurd ⟨hboth.2, hboth.1⟩ hok⟩
  · intro hne hundisturbed hnone
    cases hstands with
    | fresh | registered | waits | unmatched => simp_all
    | taken r' hok hid hplace hentry hheld hdone hflying hτ =>
      rw [hτ] at hdec'
      obtain rfl : r = r' := by simpa using hdec'
      obtain ⟨hcb, hreply⟩ := held_eq_some hheld
      obtain ⟨w₁, hinvoke, hplace₁, hdone₁, hresp₁⟩ :=
        @invoke_answers crc req w k hcb hplace
      obtain ⟨w₂, hgoOn⟩ := @goOn_returns crc req w₁ k hplace₁ hdone₁
      refine ⟨[.sync .invoke, .sync (.goOn k)], w₂, ?_⟩
      rw [hresp₁, hreply] at hgoOn
      simp [run, hinvoke, hgoOn]
    | answered r' hok hid hplace hentry hheld hdone hresp hflying hτ =>
      rw [hτ] at hdec'
      obtain rfl : r = r' := by simpa using hdec'
      obtain ⟨w₁, hgoOn⟩ := @goOn_returns crc req w k hplace hdone
      refine ⟨[.sync (.goOn k)], w₁, ?_⟩
      have hresp' : w.response k = some ⟨some k, r⟩ := hresp
      rw [hresp'] at hgoOn
      simp [run, hgoOn]
    | returned r' hok hid hplace hentry hheld hflying hτ =>
      have hret : .returned k (some ⟨some k, r'⟩) ∈ tr.filter fun e => e.call == k := by
        rw [hτ]
        simp
      exact absurd (List.mem_filter.mp hret).1 (hnone _)
    | late hplace hdec hret => exact absurd hdec' (hdec r)
    | lost hok hout hread hopen hret => exact absurd ⟨hundisturbed, hne⟩ hok

/-- What a server answers under an id. -/
def echoed (id : Bytes) : TinyPBProtocol :=
  sealed calculateChecksum { msgId := id, pbData := [1] }

/-- Call 0 sends its request, and the answer is decoded. -/
def answeredRun (id : Bytes) : List EchoLabel :=
  [.sync (.call 0 true), .sync (.goOn 0), .sync (.goOn 0), .encode 0 (TcpBuffer.new 0),
    .serve 0 (echoed id).frame, .decode 0]

theorem request_matched_iff_answered :
    ∃ w tr, run (EchoClient.step calculateChecksum fun _ => { msgId := [7] }) {}
        (answeredRun [7] ++ [.sync .invoke, .sync (.goOn 0)]) = some (w, tr) ∧
      .returned 0 (some ⟨some 0, echoed [7]⟩) ∈ tr ∧
      RunOk (EchoClient.step calculateChecksum fun _ => { msgId := [7] })
        (EchoClient.Undisturbed calculateChecksum (fun _ => { msgId := [7] }) 0) {}
        (answeredRun [7] ++ [.sync .invoke, .sync (.goOn 0)]) := by
  have hrun : (run (EchoClient.step calculateChecksum fun _ => { msgId := [7] }) {}
      (answeredRun [7] ++ [.sync .invoke, .sync (.goOn 0)])).map (fun r =>
        decide (.decoded 0 (echoed [7]) true ∈ r.2 ∧
          .returned 0 (some ⟨some 0, echoed [7]⟩) ∈ r.2)) = some true := by
    decide +kernel
  obtain ⟨⟨w, tr⟩, hw, hdone⟩ := Option.map_eq_some_iff.mp hrun
  obtain ⟨hdec, hret⟩ := of_decide_eq_true hdone
  exact ⟨w, tr, hw, hret,
    (((request_matched_iff calculateChecksum _ _ w tr 0 _ hw hdec).1 _ hret).mp rfl).2⟩

/-- A request without an id is answered under the default one, and the call times out. -/
theorem empty_id_unmatched :
    ¬ ∀ (req : Nat → TinyPBProtocol) (ls : List EchoLabel) (w : EchoClient)
      (tr : List EchoEvent) (k : Nat) (r : TinyPBProtocol) (x : Option Reply),
      RunOk (EchoClient.step calculateChecksum req)
        (EchoClient.Undisturbed calculateChecksum req k) {} ls →
      run (EchoClient.step calculateChecksum req) {} ls = some (w, tr) →
      .decoded k r true ∈ tr → .returned k x ∈ tr → x = some ⟨some k, r⟩ := by
  intro hclaim
  have hrun : (run (EchoClient.step calculateChecksum fun _ => {}) {}
      (answeredRun defaultMsgId ++ [.sync (.timeout 0), .sync (.goOn 0), .sync (.goOn 0)])).map
        (fun r => decide (.decoded 0 (echoed defaultMsgId) true ∈ r.2 ∧
          .returned 0 none ∈ r.2)) = some true := by
    decide +kernel
  obtain ⟨⟨w, tr⟩, hw, hdone⟩ := Option.map_eq_some_iff.mp hrun
  obtain ⟨hdec, hret⟩ := of_decide_eq_true hdone
  have heq := hclaim (fun _ => {}) _ w tr 0 _ none (by decide +kernel) hw hdec hret
  exact absurd heq (by simp)

end RocketRpc.Net
