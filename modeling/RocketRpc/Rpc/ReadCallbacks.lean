import RocketRpc.Rpc.SharedClient

/-
  The read callback of a call, from its registration to its end.

  A call registers its callback once, between two looks at `finished`, and the winner of
  `finishRpc` cancels it. `Registered` is the invariant: the callback is in the table only while
  the call is not finished, or its winner has still to cancel, or its `doSendRead` has still to
  look again. A winner that cancels before the registration has finished the call before it, so
  the second look sees it. `ReadStep` says what a step of the call does to its callback, over a
  client of a pool or one that has still to connect.
-/

namespace RocketRpc.Rpc

open World RocketRpc.Tcp RocketRpc.Coder

variable {Message : Type} {parse : Bytes → Message × Bool}

/-! ## Where the callback is -/

/-- The operations up to the choice between `doSendRead` and `connect`. -/
def Op.early : Op Message → Bool
  | .acquire | .setMsgId | .serialize | .addTimer | .start => true
  | _ => false

/-- The operations of `doSendRead`. -/
def Op.sendsRead : Op Message → Bool
  | .checkFinished | .readMessage | .recheckFinished | .send => true
  | _ => false

/-- The callback of `connect` and `doSendRead`. -/
def Op.late (op : Op Message) : Bool :=
  match op with
  | .connected => true
  | op => op.sendsRead

/-- The winner has still to cancel. -/
def Stage.beforeCancel : Stage Message → Bool
  | .dropTimer | .cancelRead => true
  | _ => false

namespace World

/-- The winner of `finishRpc` has returned, and `doSendRead` is not running. -/
def Over (w : World Message) : Prop :=
  w.state.finished = true ∧ (∀ t, (w.threads t).finishing = none) ∧
    ∀ t, ∀ op ∈ (w.threads t).code, op.sendsRead = false

/-- The call has a client and a message id, under which `finishRpc` cancels. -/
def Known (w : World Message) : Prop := w.state.client = true ∧ w.state.msgId ≠ []

/-- The callback of the call was registered, and the request was not sent. -/
def Sending (w : World Message) : Prop :=
  ∃ t, .recheckFinished ∈ (w.threads t).code ∨ .send ∈ (w.threads t).code

end World

/-- What holds when an operation is next. -/
def Op.Needs (w : World Message) : Op Message → Prop
  | .setMsgId => w.state.client = true
  | .serialize => w.state.client = true ∧ w.controller.msgId ≠ []
  | .addTimer | .start => w.Known
  | op => op.late = true → w.Known

/-- Where the callback of a call is. -/
structure Registered (w : World Message) : Prop where
  /-- Only the caller's thread has an early operation, as its first one. -/
  others : ∀ t, t ≠ caller → ∀ op ∈ (w.threads t).code, op.early = false
  tail : ∀ op ∈ (w.threads caller).code.tail, op.early = false
  /-- Before it has done all of them, nothing of `doSendRead` has happened. -/
  quiet : (∃ op ∈ (w.threads caller).code, op.early = true) →
    w.client.readCallback = false ∧ w.client.connecting = false ∧
      ∀ t, ∀ op ∈ (w.threads t).code, op.late = false
  needs : ∀ t, ∀ op ∈ (w.threads t).code, op.Needs w
  known : w.client.readCallback = true ∨ w.client.connecting = true → w.Known
  cancels : w.client.readCallback = true → w.state.finished = false ∨
    (∃ t f stage, (w.threads t).finishing = some (f, stage) ∧ stage.beforeCancel = true) ∨
    ∃ t, .recheckFinished ∈ (w.threads t).code

/-- No callback is left of a call that is over. -/
theorem Registered.over {w : World Message} (h : Registered w) (hover : w.Over) :
    w.client.readCallback = false := by
  obtain ⟨hfinished, hreturned, hsent⟩ := hover
  refine Bool.eq_false_iff.mpr fun hread => ?_
  rcases h.cancels hread with hopen | ⟨t, f, stage, hat, -⟩ | ⟨t, hmem⟩
  · exact absurd (hopen.symm.trans hfinished) (by simp)
  · exact absurd (hat.symm.trans (hreturned t)) (by simp)
  · exact absurd (hsent t _ hmem) (by simp [Op.sendsRead])

/-! ## A step of one call -/

/-- What a call knows of its ids stays known. -/
structure Grows (w w₁ : World Message) : Prop where
  client : w.state.client = true → w₁.state.client = true
  msgId : w.state.msgId ≠ [] → w₁.state.msgId ≠ []
  controller : w.controller.msgId ≠ [] → w₁.controller.msgId ≠ []

theorem Grows.of_eq {w w₁ : World Message} (hclient : w₁.state.client = w.state.client)
    (hmsgId : w₁.state.msgId = w.state.msgId)
    (hcontroller : w₁.controller.msgId = w.controller.msgId) : Grows w w₁ where
  client := by rw [hclient]; exact id
  msgId := by rw [hmsgId]; exact id
  controller := by rw [hcontroller]; exact id

theorem Grows.known {w w₁ : World Message} (h : Grows w w₁) (hw : w.Known) : w₁.Known :=
  ⟨h.client hw.1, h.msgId hw.2⟩

theorem Grows.needs {w w₁ : World Message} (h : Grows w w₁) {op : Op Message}
    (hop : op.Needs w) : op.Needs w₁ := by
  cases op with
  | setMsgId => exact h.client hop
  | serialize => exact ⟨h.client hop.1, h.controller hop.2⟩
  | addTimer | start => exact h.known hop
  | _ => exact fun hlate => h.known (hop hlate)

/-- The callback and `connect` are as before. -/
def SameRead (w w₁ : World Message) : Prop :=
  w₁.client.readCallback = w.client.readCallback ∧
    w₁.client.connecting = w.client.connecting

/-- An operation is replaced by `next`, in a world where its effect is done. -/
structure Replaces (w w₁ : World Message) (op : Op Message) (next : List (Op Message)) :
    Prop where
  threads : w₁.threads = w.threads
  grows : Grows w w₁
  early : (∀ x ∈ next, x.early = false) ∨
    op.early = true ∧ SameRead w w₁ ∧ ∃ x, next = [x] ∧ x.late = false
  past : op.early = false → op.late = false →
    SameRead w w₁ ∧ ∀ x ∈ next, x.early = false ∧ x.late = false
  needs : ∀ x ∈ next, x.Needs w₁
  known : w₁.client.readCallback = true ∨ w₁.client.connecting = true → w₁.Known

/-- The operations of a thread that has replaced its first one. -/
theorem mem_replaced {w w₁ : World Message} {t u : ThreadId} {op x : Op Message}
    {rest next : List (Op Message)} {finishing : Option (Finisher × Stage Message)}
    (hat : (w.threads t).code = op :: rest) (hthreads : w₁.threads = w.threads)
    (hx : x ∈ ((w₁.setThread t ⟨finishing, next ++ rest⟩).threads u).code) :
    u = t ∧ x ∈ next ∨ x ∈ (w.threads u).code := by
  rw [threads_setThread, hthreads] at hx
  split at hx
  · rename_i hut
    rcases List.mem_append.mp hx with hx | hx
    · exact Or.inl ⟨hut, hx⟩
    · rw [hut, hat]
      exact Or.inr (List.mem_cons_of_mem _ hx)
  · exact Or.inr hx

/-- A thread outside of `finishRpc` replaces its first operation. -/
theorem Registered.replace {w w₁ : World Message} {t : ThreadId} {op : Op Message}
    {rest next : List (Op Message)} {finishing : Option (Finisher × Stage Message)}
    (h : Registered w) (hat : w.threads t = ⟨none, op :: rest⟩) (hr : Replaces w w₁ op next)
    (hcancels : w₁.client.readCallback = true → w₁.state.finished = false ∨
      (∃ u f stage, ((w₁.setThread t ⟨finishing, next ++ rest⟩).threads u).finishing =
        some (f, stage) ∧ stage.beforeCancel = true) ∨
      ∃ u, .recheckFinished ∈ ((w₁.setThread t ⟨finishing, next ++ rest⟩).threads u).code) :
    Registered (w₁.setThread t ⟨finishing, next ++ rest⟩) := by
  have hcode : (w.threads t).code = op :: rest := by rw [hat]
  have hmem : ∀ {u x}, x ∈ ((w₁.setThread t ⟨finishing, next ++ rest⟩).threads u).code →
      u = t ∧ x ∈ next ∨ x ∈ (w.threads u).code := fun hx => mem_replaced hcode hr.threads hx
  -- an early operation is replaced by one in the same place
  have hcaller : op.early = true → t = caller := by
    intro hop
    by_contra ht
    exact absurd (h.others t ht op (by simp [hcode])) (by simp [hop])
  have hrest := mem_behind_first hcode h.others h.tail
  have hnext : t ≠ caller → ∀ x ∈ next, x.early = false := by
    intro ht
    rcases hr.early with hnone | ⟨hop, -⟩
    · exact hnone
    · exact absurd (hcaller hop) ht
  refine ⟨?_, ?_, ?_, ?_, hr.known, hcancels⟩
  · intro u hu x hx
    rcases hmem hx with ⟨hut, hin⟩ | hx
    · exact hnext (hut ▸ hu) x hin
    · exact h.others u hu x hx
  · intro x hx
    rw [threads_setThread, hr.threads] at hx
    split at hx
    · rcases hr.early with hnone | ⟨-, -, y, rfl, -⟩
      · exact (List.mem_append.mp (List.mem_of_mem_tail hx)).elim (hnone x) (hrest x)
      · exact hrest x hx
    · exact h.tail x hx
  · rintro ⟨x, hx, hearly⟩
    -- an early operation is left, so this step had none or replaced it by one
    have hold : (∃ y ∈ (w.threads caller).code, y.early = true) ∧ SameRead w w₁ ∧
        ∀ y ∈ next, y.late = false := by
      by_cases hop : op.early = true
      · have ht := hcaller hop
        refine ⟨⟨op, by simp [← ht, hcode], hop⟩, ?_⟩
        rcases hr.early with hnone | ⟨-, hsame, y, rfl, hy⟩
        · rw [threads_setThread, hr.threads, if_pos ht.symm] at hx
          rcases List.mem_append.mp hx with hx | hx
          · exact absurd (hnone x hx) (by simp [hearly])
          · exact absurd (hrest x hx) (by simp [hearly])
        · exact ⟨hsame, by simpa using hy⟩
      · have hmem' := hmem hx
        have hx' : x ∈ (w.threads caller).code := by
          rcases hmem' with ⟨-, hx⟩ | hx
          · rcases hr.early with hnone | ⟨he, -⟩
            · exact absurd (hnone x hx) (by simp [hearly])
            · exact absurd he hop
          · exact hx
        have hlate := (h.quiet ⟨x, hx', hearly⟩).2.2 t op (by simp [hcode])
        obtain ⟨hsame, hnone⟩ := hr.past (eq_false_of_ne_true hop) hlate
        exact ⟨⟨x, hx', hearly⟩, hsame, fun y hy => (hnone y hy).2⟩
    obtain ⟨hwas, ⟨hread, hconnecting⟩, hlate⟩ := hold
    obtain ⟨hq₁, hq₂, hq₃⟩ := h.quiet hwas
    refine ⟨hread.trans hq₁, hconnecting.trans hq₂, fun u y hy => ?_⟩
    rcases hmem hy with ⟨-, hy⟩ | hy
    · exact hlate y hy
    · exact hq₃ u y hy
  · intro u x hx
    rcases hmem hx with ⟨-, hx⟩ | hx
    · exact hr.needs x hx
    · exact hr.grows.needs (h.needs u x hx)

/-- What a step of a call does, as far as its callback is concerned. -/
structure ReadStep (w w' : World Message) (use : Use) : Prop where
  registered : Registered w'
  callback : w'.client.readCallback = use.callback w.client.readCallback
  msgId : w'.state.msgId = w.state.msgId ∨
    w.client.readCallback = false ∧ ¬ w.Sending ∧ use = .none
  sending : w'.Sending → w.Sending ∨ use = .register
  send : use = .send → w.Sending

/-- No operation of `sends` is one between the registration and the request. -/
def SendsNothing (code : List (Op Message)) : Prop :=
  .recheckFinished ∉ code ∧ .send ∉ code

theorem sending_replaced {w w₁ : World Message} {t : ThreadId} {op : Op Message}
    {rest : List (Op Message)} {finishing : Option (Finisher × Stage Message)}
    (hat : (w.threads t).code = op :: rest) (hthreads : w₁.threads = w.threads)
    (next : List (Op Message)) (hnext : SendsNothing next)
    (hsending : (w₁.setThread t ⟨finishing, next ++ rest⟩).Sending) : w.Sending := by
  obtain ⟨u, hu⟩ := hsending
  refine ⟨u, hu.imp (fun hx => ?_) fun hx => ?_⟩
  · exact (mem_replaced hat hthreads hx).resolve_left fun h => hnext.1 h.2
  · exact (mem_replaced hat hthreads hx).resolve_left fun h => hnext.2 h.2

/-- A thread outside of `finishRpc` that leaves `finished` and the callback alone, and does not
    look at `finished` a second time. -/
theorem Registered.goes {w w₁ : World Message} {t : ThreadId} {op : Op Message}
    {rest next : List (Op Message)} (h : Registered w) (hat : w.threads t = ⟨none, op :: rest⟩)
    (hr : Replaces w w₁ op next) (hread : w₁.client.readCallback = w.client.readCallback)
    (hfinished : w₁.state.finished = w.state.finished) (hop : op ≠ .recheckFinished)
    (hmsgId : w₁.state.msgId = w.state.msgId ∨ op.early = true) (hnext : SendsNothing next) :
    ReadStep w (w₁.goOn t (next ++ rest)) .none := by
  have hcode : (w.threads t).code = op :: rest := by rw [hat]
  refine ⟨h.replace hat hr fun hcalls => ?_, hread, hmsgId.imp_right fun hearly => ?_,
    fun hs => Or.inl (sending_replaced hcode hr.threads next hnext hs), by simp⟩
  · rw [hread] at hcalls
    rcases h.cancels hcalls with hopen | ⟨u, f, stage, hu, hstage⟩ | ⟨u, hu⟩
    · exact Or.inl (hfinished.trans hopen)
    · refine Or.inr (Or.inl ⟨u, f, stage, ?_, hstage⟩)
      have hut : u ≠ t := by
        rintro rfl
        rw [hat] at hu
        exact absurd hu (by simp)
      rw [threads_setThread, if_neg hut, hr.threads]
      exact hu
    · refine Or.inr (Or.inr ⟨u, ?_⟩)
      rw [threads_setThread, hr.threads]
      split
      · rename_i hut
        rw [hut, hcode] at hu
        exact List.mem_append_right _ (List.mem_of_ne_of_mem (Ne.symm hop) hu)
      · exact hu
  · -- an early operation is one of a call that has not registered
    have ht : t = caller := by
      by_contra ht
      exact absurd (h.others t ht op (by simp [hcode])) (by simp [hearly])
    obtain ⟨hnone, -, hlate⟩ := h.quiet ⟨op, by simp [← ht, hcode], hearly⟩
    refine ⟨hnone, ?_, rfl⟩
    rintro ⟨u, hu | hu⟩
    · exact absurd (hlate u _ hu) (by simp [Op.late, Op.sendsRead])
    · exact absurd (hlate u _ hu) (by simp [Op.late, Op.sendsRead])

/-- An operation whose effect leaves the callback and `connect` alone. -/
theorem Registered.replaces {w w₁ : World Message} {op : Op Message} {next : List (Op Message)}
    (h : Registered w) (hthreads : w₁.threads = w.threads) (hgrows : Grows w w₁)
    (hread : SameRead w w₁)
    (hearly : (∀ x ∈ next, x.early = false) ∨ op.early = true ∧ ∃ x, next = [x] ∧ x.late = false)
    (hlate : op.early = true ∨ op.late = true ∨ ∀ x ∈ next, x.early = false ∧ x.late = false)
    (hneeds : ∀ x ∈ next, x.Needs w₁) : Replaces w w₁ op next where
  threads := hthreads
  grows := hgrows
  early := hearly.imp_right fun ⟨hop, hx⟩ => ⟨hop, hread, hx⟩
  past := by
    intro hop hpast
    rcases hlate with he | hl | hnext
    · exact absurd hop (by simp [he])
    · exact absurd hpast (by simp [hl])
    · exact ⟨hread, hnext⟩
  needs := hneeds
  known := by
    rw [hread.1, hread.2]
    exact fun hflag => hgrows.known (h.known hflag)

/-- An early operation is followed by the next one. -/
theorem Registered.advances {w w₁ : World Message} {t : ThreadId} {op x : Op Message}
    {rest : List (Op Message)} (h : Registered w) (hat : w.threads t = ⟨none, op :: rest⟩)
    (hthreads : w₁.threads = w.threads) (hclient : w₁.client = w.client) (hgrows : Grows w w₁)
    (hfinished : w₁.state.finished = w.state.finished) (hop : op.early = true)
    (hx : x.early = true) (hneeds : x.Needs w₁) :
    ReadStep w (w₁.goOn t (x :: rest)) .none := by
  have hpast : x.late = false := by cases x <;> simp_all [Op.early, Op.late, Op.sendsRead]
  have hsame : SameRead w w₁ := by
    unfold SameRead
    rw [hclient]
    exact ⟨rfl, rfl⟩
  have hr : Replaces w w₁ op [x] := h.replaces hthreads hgrows hsame
    (Or.inr ⟨hop, x, rfl, hpast⟩) (Or.inl hop) (by simpa using hneeds)
  refine h.goes hat hr hsame.1 hfinished ?_ (Or.inr hop) ?_
  · rintro rfl
    exact absurd hop (by simp [Op.early])
  · constructor
    · rintro hmem
      obtain rfl := List.mem_singleton.mp hmem
      exact absurd hx (by simp [Op.early])
    · rintro hmem
      obtain rfl := List.mem_singleton.mp hmem
      exact absurd hx (by simp [Op.early])

/-- An operation is replaced by `next` in the same world. -/
theorem Registered.moves {w : World Message} {t : ThreadId} {op : Op Message}
    {rest : List (Op Message)} (h : Registered w) (hat : w.threads t = ⟨none, op :: rest⟩)
    (next : List (Op Message)) (hearly : ∀ x ∈ next, x.early = false)
    (hlate : op.early = true ∨ op.late = true ∨ ∀ x ∈ next, x.late = false)
    (hneeds : ∀ x ∈ next, x.Needs w) (hop : op ≠ .recheckFinished) (hnext : SendsNothing next) :
    ReadStep w (w.goOn t (next ++ rest)) .none := by
  refine h.goes hat (h.replaces rfl (.of_eq rfl rfl rfl) ⟨rfl, rfl⟩ (Or.inl hearly) ?_ hneeds) rfl
    rfl hop (Or.inl rfl) hnext
  rcases hlate with he | hl | hnone
  · exact Or.inl he
  · exact Or.inr (Or.inl hl)
  · exact Or.inr (Or.inr fun x hx => ⟨hearly x hx, hnone x hx⟩)

/-- An operation is replaced by ones that have nothing to do with the request. -/
theorem Registered.leaves {w : World Message} {t : ThreadId} {op : Op Message}
    {rest : List (Op Message)} (h : Registered w) (hat : w.threads t = ⟨none, op :: rest⟩)
    (next : List (Op Message)) (hnext : ∀ x ∈ next, x.early = false ∧ x.late = false)
    (hop : op ≠ .recheckFinished) : ReadStep w (w.goOn t (next ++ rest)) .none := by
  refine h.moves hat next (fun x hx => (hnext x hx).1)
    (Or.inr (Or.inr fun x hx => (hnext x hx).2)) (fun x hx => ?_) hop ⟨fun hx => ?_, fun hx => ?_⟩
  · obtain ⟨hearly, hlate⟩ := hnext x hx
    cases x with
    | acquire | setMsgId | serialize | addTimer | start =>
      exact absurd hearly (by simp [Op.early])
    | _ => exact fun hl => absurd (hl.symm.trans hlate) (by simp)
  · exact absurd (hnext _ hx).2 (by simp [Op.late, Op.sendsRead])
  · exact absurd (hnext _ hx).2 (by simp [Op.late, Op.sendsRead])

/-- `doSendRead` starts, or goes on to the registration. -/
theorem Registered.enters {w : World Message} {t : ThreadId} {op x : Op Message}
    {rest : List (Op Message)} (h : Registered w) (hat : w.threads t = ⟨none, op :: rest⟩)
    (hop : op.early = true ∨ op.late = true) (hne : op ≠ .recheckFinished) (hknown : w.Known)
    (hx : x = .checkFinished ∨ x = .readMessage) :
    ReadStep w (w.goOn t (x :: rest)) .none := by
  have hother : x.early = false ∧ x.Needs w ∧ SendsNothing [x] := by
    rcases hx with rfl | rfl
    · exact ⟨rfl, fun _ => hknown, by simp [SendsNothing]⟩
    · exact ⟨rfl, fun _ => hknown, by simp [SendsNothing]⟩
  exact h.moves hat [x] (by simpa using hother.1) (hop.imp_right Or.inl)
    (by simpa using hother.2.1) hne hother.2.2

theorem exec_readStep {w w' : World Message} {t : ThreadId} {rest : List (Op Message)}
    {op : Op Message} {input : Input} {es : List (Event Message)} (h : Registered w)
    (hinput : ∀ id, input = .generated id → id ≠ [])
    (hat : w.threads t = ⟨none, op :: rest⟩) (hexec : w.exec t rest op input = some (w', es)) :
    ReadStep w w' (w.useOf ⟨none, op :: rest⟩) := by
  have hcode : (w.threads t).code = op :: rest := by rw [hat]
  have hop : op.Needs w := h.needs t op (by simp [hcode])
  cases does_of_exec hexec with
  | acquired => exact h.advances hat rfl rfl ⟨fun _ => rfl, id, id⟩ rfl rfl rfl rfl
  | @setMsgId msgId =>
    refine h.advances hat rfl rfl ⟨id, id, fun hne => ?_⟩ rfl rfl rfl ⟨hop, ?_⟩
    · simp [hne]
    · by_cases hempty : w.controller.msgId = []
      · simpa [hempty] using hinput msgId rfl
      · simp [hempty]
  | serialized => exact h.advances hat rfl rfl ⟨id, fun _ => hop.2, id⟩ rfl rfl rfl hop
  | addTimer => exact h.advances hat rfl rfl (.of_eq rfl rfl rfl) rfl rfl rfl hop
  | notAcquired | notSerialized | notConnected =>
    exact h.leaves hat [.finishRpc _] (by simp [Op.early, Op.late, Op.sendsRead]) (by simp)
  | pooled => exact h.enters hat (Or.inl rfl) (by simp) hop (Or.inl rfl)
  | connected => exact h.enters hat (Or.inr rfl) (by simp) (hop rfl) (Or.inl rfl)
  | checked => exact h.enters hat (Or.inr rfl) (by simp) (hop rfl) (Or.inr rfl)
  | connects =>
    have hr : Replaces w { w with client := { w.client with connecting := true } } .start [] :=
      ⟨rfl, .of_eq rfl rfl rfl, Or.inl (by simp),
        fun hearly => absurd hearly (by simp [Op.early]), by simp, fun _ => hop⟩
    exact h.goes hat hr rfl rfl (by simp) (Or.inl rfl) (by simp [SendsNothing])
  | readMessage =>
    have hknown : w.Known := hop rfl
    have hr : Replaces w { w with client := { w.client with readCallback := true } } .readMessage
        [.recheckFinished] :=
      ⟨rfl, .of_eq rfl rfl rfl, Or.inl (by simp [Op.early]),
        fun _ hlate => absurd hlate (by simp [Op.late, Op.sendsRead]),
        fun x hx => by
          obtain rfl := List.mem_singleton.mp hx
          exact fun _ => hknown,
        fun _ => hknown⟩
    refine ⟨h.replace hat hr fun _ => Or.inr (Or.inr ⟨t, ?_⟩), rfl, Or.inl rfl, fun _ => Or.inr rfl,
      by simp [World.useOf]⟩
    rw [threads_setThread, if_pos rfl]
    exact List.mem_cons_self
  | rechecked hopen =>
    have hr : Replaces w w .recheckFinished [.send] :=
      ⟨rfl, .of_eq rfl rfl rfl, Or.inl (by simp [Op.early]),
        fun _ hlate => absurd hlate (by simp [Op.late, Op.sendsRead]),
        by simpa [Op.Needs, Op.late, Op.sendsRead] using hop, h.known⟩
    rw [World.useOf, if_neg (by simp [hopen])]
    exact ⟨h.replace hat hr fun _ => Or.inl hopen, rfl, Or.inl rfl,
      fun _ => Or.inl ⟨t, Or.inl (by simp [hcode])⟩, by simp⟩
  | cancels hfinished =>
    have hr : Replaces w { w with client := { w.client with readCallback := false } }
        .recheckFinished [] :=
      ⟨rfl, .of_eq rfl rfl rfl, Or.inl (by simp),
        fun _ hlate => absurd hlate (by simp [Op.late, Op.sendsRead]), by simp,
        fun hflag => h.known (Or.inr (by simpa using hflag))⟩
    rw [World.useOf, if_pos hfinished]
    exact ⟨h.replace hat hr fun hflag => absurd hflag (by simp), rfl, Or.inl rfl,
      fun hs => Or.inl (sending_replaced hcode hr.threads [] (by simp [SendsNothing]) hs), by simp⟩
  | send =>
    have hs := h.leaves hat [] (by simp) (by simp)
    exact ⟨hs.registered, hs.callback, hs.msgId.imp_right fun h => ⟨h.1, h.2.1, absurd ⟨t,
      Or.inr (by simp [hcode])⟩ h.2.1⟩, fun hsending => Or.inl ((hs.sending hsending).resolve_right
        (by simp)), fun _ => ⟨t, Or.inr (by simp [hcode])⟩⟩
  | @won f hopen =>
    have hr : Replaces w { w with state := { w.state with finished := true } } (.finishRpc f) [] :=
      ⟨rfl, .of_eq rfl rfl rfl, Or.inl (by simp), fun _ _ => ⟨⟨rfl, rfl⟩, by simp⟩, by simp,
        h.known⟩
    refine ⟨h.replace hat hr fun _ => Or.inr (Or.inl ⟨t, f, .dropTimer, ?_, rfl⟩), rfl, Or.inl rfl,
      fun hs => Or.inl (sending_replaced hcode hr.threads [] (by simp [SendsNothing]) hs),
      by simp [World.useOf]⟩
    rw [threads_setThread, if_pos rfl]
  | tooLate | lost | waited | returned => exact h.leaves hat [] (by simp) (by simp)
  | waits => exact h.leaves hat [.wait] (by simp [Op.early, Op.late, Op.sendsRead]) (by simp)
  | woken => exact h.leaves hat [.ret _] (by simp [Op.early, Op.late, Op.sendsRead]) (by simp)
  | timedOut =>
    exact h.leaves hat [.finishRpc _, .ret _] (by simp [Op.early, Op.late, Op.sendsRead])
      (by simp)

/-- What a thread starts with: nothing early, and nothing late unless `connect` calls back. -/
def MayStart (w : World Message) (x : Op Message) : Prop :=
  x.early = false ∧ x.Needs w ∧ (x.late = true → w.client.connecting = true)

/-- A thread goes on inside `finishRpc`, or starts a callback. -/
theorem Registered.keeps {w w₁ : World Message} {t : ThreadId} (h : Registered w)
    (thread : Thread Message) (hthreads : w₁.threads = w.threads) (hgrows : Grows w w₁)
    (hcode : thread.code = (w.threads t).code ∨ ∃ x, thread.code = [x] ∧ MayStart w x)
    (hread : w₁.client.readCallback = true → w.client.readCallback = true)
    (hconnecting : w₁.client.connecting = true → w.client.connecting = true)
    (hcancels : w₁.client.readCallback = true → w₁.state.finished = false ∨
      (∃ u f stage, ((w₁.setThread t thread).threads u).finishing = some (f, stage) ∧
        stage.beforeCancel = true) ∨
      ∃ u, .recheckFinished ∈ ((w₁.setThread t thread).threads u).code) :
    Registered (w₁.setThread t thread) := by
  have hmem : ∀ {u x}, x ∈ ((w₁.setThread t thread).threads u).code →
      x ∈ (w.threads u).code ∨ MayStart w x := by
    intro u x hx
    rw [threads_setThread, hthreads] at hx
    split at hx
    · rename_i hut
      rcases hcode with heq | ⟨y, heq, hy⟩
      · rw [heq] at hx
        exact Or.inl (hut ▸ hx)
      · rw [heq] at hx
        obtain rfl := List.mem_singleton.mp hx
        exact Or.inr hy
    · exact Or.inl hx
  refine ⟨?_, ?_, ?_, ?_, ?_, hcancels⟩
  · intro u hu x hx
    rcases hmem hx with hx | hx
    · exact h.others u hu x hx
    · exact hx.1
  · intro x hx
    rw [threads_setThread, hthreads] at hx
    split at hx
    · rename_i hut
      rcases hcode with heq | ⟨y, heq, -⟩
      · rw [heq, ← hut] at hx
        exact h.tail x hx
      · rw [heq] at hx
        exact absurd hx (by simp)
    · exact h.tail x hx
  · rintro ⟨x, hx, hearly⟩
    have hold : ∃ y ∈ (w.threads caller).code, y.early = true := by
      rcases hmem hx with hx | hx
      · exact ⟨x, hx, hearly⟩
      · exact absurd (hearly.symm.trans hx.1) (by simp)
    obtain ⟨hq₁, hq₂, hq₃⟩ := h.quiet hold
    refine ⟨Bool.eq_false_iff.mpr fun hf => ?_, Bool.eq_false_iff.mpr fun hf => ?_, ?_⟩
    · exact absurd (hq₁.symm.trans (hread hf)) (by simp)
    · exact absurd (hq₂.symm.trans (hconnecting hf)) (by simp)
    · intro u y hy
      rcases hmem hy with hy | hy
      · exact hq₃ u y hy
      · exact Bool.eq_false_iff.mpr fun hl => absurd (hq₂.symm.trans (hy.2.2 hl)) (by simp)
  · intro u x hx
    rcases hmem hx with hx | hx
    · exact hgrows.needs (h.needs u x hx)
    · exact hgrows.needs hx.2.1
  · exact fun hflag => hgrows.known (h.known (hflag.imp hread hconnecting))

/-- Whoever has still to cancel goes on to do so, where the thread that steps is not it. -/
theorem Registered.stillCancels {w w₁ : World Message} {t : ThreadId} {thread : Thread Message}
    (h : Registered w) (hthreads : w₁.threads = w.threads)
    (hcode : ∀ x ∈ (w.threads t).code, x ∈ thread.code)
    (hstage : ∀ f stage, (w.threads t).finishing = some (f, stage) →
      stage.beforeCancel = true → ∃ stage', thread.finishing = some (f, stage') ∧
        stage'.beforeCancel = true)
    (hread : w.client.readCallback = true) :
    w.state.finished = false ∨
      (∃ u f stage, ((w₁.setThread t thread).threads u).finishing = some (f, stage) ∧
        stage.beforeCancel = true) ∨
      ∃ u, .recheckFinished ∈ ((w₁.setThread t thread).threads u).code := by
  rcases h.cancels hread with hopen | ⟨u, f, stage, hu, hbefore⟩ | ⟨u, hu⟩
  · exact Or.inl hopen
  · refine Or.inr (Or.inl ?_)
    by_cases hut : u = t
    · rw [hut] at hu
      obtain ⟨stage', hstage', hbefore'⟩ := hstage f stage hu hbefore
      exact ⟨t, f, stage', by rw [threads_setThread, if_pos rfl, hstage'], hbefore'⟩
    · exact ⟨u, f, stage, by rw [threads_setThread, if_neg hut, hthreads, hu], hbefore⟩
  · refine Or.inr (Or.inr ⟨u, ?_⟩)
    rw [threads_setThread, hthreads]
    split
    · rename_i hut
      exact hcode _ (hut ▸ hu)
    · exact hu

theorem sending_kept {w w₁ : World Message} {t : ThreadId} {thread : Thread Message}
    (hthreads : w₁.threads = w.threads) (hcode : ∀ x ∈ thread.code,
      x ∈ (w.threads t).code ∨ x ≠ .recheckFinished ∧ x ≠ .send)
    (hsending : (w₁.setThread t thread).Sending) : w.Sending := by
  obtain ⟨u, hu⟩ := hsending
  rw [threads_setThread, hthreads] at hu
  split at hu
  · refine ⟨t, hu.imp (fun hx => ?_) fun hx => ?_⟩
    · exact (hcode _ hx).resolve_right fun h => h.1 rfl
    · exact (hcode _ hx).resolve_right fun h => h.2 rfl
  · exact ⟨u, hu⟩

theorem finish_readStep {w : World Message} {t : ThreadId} {f : Finisher}
    {stage : Stage Message} {code : List (Op Message)} (h : Registered w)
    (hat : w.threads t = ⟨some (f, stage), code⟩) :
    ReadStep w (w.finish parse t f code stage).1 (w.useOf ⟨some (f, stage), code⟩) := by
  have hcode : (w.threads t).code = code := by rw [hat]
  have hkept : ∀ x ∈ code, x ∈ (w.threads t).code ∨ x ≠ .recheckFinished ∧ x ≠ .send := by
    intro x hx
    rw [hcode]
    exact Or.inl hx
  -- a stage that leaves the callback alone
  have next : ∀ {w₁ : World Message} {finishing : Option (Finisher × Stage Message)},
      w₁.threads = w.threads → w₁.client = w.client → Grows w w₁ →
      w₁.state.finished = w.state.finished → w₁.state.msgId = w.state.msgId →
      (stage.beforeCancel = true → ∃ s, finishing = some (f, s) ∧ s.beforeCancel = true) →
      ReadStep w (w₁.setThread t ⟨finishing, code⟩) .none := by
    intro w₁ finishing hthreads hclient hgrows hfinished hmsgId hstage
    have hread : (w₁.setThread t ⟨finishing, code⟩).client = w.client := hclient
    refine ⟨h.keeps _ hthreads hgrows (Or.inl hcode.symm) (by rw [hclient]; exact id)
      (by rw [hclient]; exact id) fun hflag => ?_, by rw [hread]; rfl, Or.inl hmsgId,
      fun hs => Or.inl (sending_kept hthreads hkept hs), by simp⟩
    rw [hfinished]
    rw [hclient] at hflag
    refine h.stillCancels hthreads (by simp [hcode]) (fun g s hg hs => ?_) hflag
    obtain ⟨rfl, rfl⟩ : f = g ∧ stage = s := by simpa [hat] using hg
    exact hstage hs
  cases stage with
  | dropTimer =>
    simp only [finish]
    split
    · exact next rfl rfl (.of_eq rfl rfl rfl) rfl rfl fun _ => ⟨_, rfl, rfl⟩
    · exact next rfl rfl (.of_eq rfl rfl rfl) rfl rfl fun _ => ⟨_, rfl, rfl⟩
  | cancelRead =>
    simp only [finish, World.useOf]
    split
    · have hthreads : ({ w with client := { w.client with readCallback := false } } :
          World Message).threads = w.threads := rfl
      exact ⟨h.keeps _ hthreads (.of_eq rfl rfl rfl) (Or.inl hcode.symm) (by simp) id
        (fun hflag => absurd hflag (by simp)), rfl, Or.inl rfl,
        fun hs => Or.inl (sending_kept hthreads hkept hs), by simp⟩
    · rename_i hskips
      -- without a client or an id the callback is not registered
      have hnone : w.client.readCallback = false := by
        refine Bool.eq_false_iff.mpr fun hflag => hskips ?_
        obtain ⟨hclient, hid⟩ := h.known (Or.inl hflag)
        rw [hclient, Bool.true_and, Bool.not_eq_true']
        exact List.isEmpty_eq_false_iff.mpr hid
      exact ⟨h.keeps _ rfl (.of_eq rfl rfl rfl) (Or.inl hcode.symm) id id
        (fun hflag => absurd (hnone.symm.trans hflag) (by simp)), rfl, Or.inl rfl,
        fun hs => Or.inl (sending_kept rfl hkept hs), by simp⟩
  | beforeDone => exact next rfl rfl (.of_eq rfl rfl rfl) rfl rfl (by simp [Stage.beforeCancel])
  | writing writes =>
    cases writes with
    | nil => exact next rfl rfl (.of_eq rfl rfl rfl) rfl rfl (by simp [Stage.beforeCancel])
    | cons x xs =>
      have hw : (w.write x).threads = w.threads ∧ (w.write x).client = w.client ∧
          (w.write x).state = w.state ∧ (w.write x).controller.msgId = w.controller.msgId := by
        cases x <;> exact ⟨rfl, rfl, rfl, rfl⟩
      obtain ⟨hthreads, hclient, hstate, hcontroller⟩ := hw
      exact next hthreads hclient (.of_eq (by rw [hstate]) (by rw [hstate]) hcontroller)
        (by rw [hstate]) (by rw [hstate]) (by simp [Stage.beforeCancel])
  | runDone =>
    simp only [finish]
    split
    · exact next rfl rfl (.of_eq rfl rfl rfl) rfl rfl (by simp [Stage.beforeCancel])
    · exact next rfl rfl (.of_eq rfl rfl rfl) rfl rfl (by simp [Stage.beforeCancel])
    · have hthreads : ({ w with waitDone := true } : World Message).threads = w.threads := rfl
      exact next hthreads rfl (.of_eq rfl rfl rfl) rfl rfl (by simp [Stage.beforeCancel])

/-- A thread starts the callback of the timer, of `connect` or of a response. -/
theorem Registered.starts {w w₁ : World Message} {t : ThreadId} {x : Op Message}
    (h : Registered w) (hat : w.threads t = ⟨none, []⟩) (hthreads : w₁.threads = w.threads)
    (hstate : w₁.state = w.state) (hcontroller : w₁.controller = w.controller)
    (hx : MayStart w x) (hne : x ≠ .recheckFinished ∧ x ≠ .send)
    (hread : w₁.client.readCallback = true → w.client.readCallback = true)
    (hconnecting : w₁.client.connecting = true → w.client.connecting = true) :
    Registered (w₁.goOn t [x]) ∧ ((w₁.goOn t [x]).Sending → w.Sending) := by
  have hgrows : Grows w w₁ := .of_eq (by rw [hstate]) (by rw [hstate]) (by rw [hcontroller])
  refine ⟨h.keeps _ hthreads hgrows (Or.inr ⟨x, rfl, hx⟩) hread hconnecting fun hflag => ?_,
    sending_kept hthreads (by simp [hne])⟩
  rw [hstate]
  exact h.stillCancels hthreads (by simp [hat]) (by simp [hat]) (hread hflag)

/-- An operation of `finishRpc` may start anywhere. -/
theorem mayStart_finishRpc (w : World Message) (f : Finisher) : MayStart w (.finishRpc f) :=
  ⟨rfl, by simp [Op.Needs, Op.late, Op.sendsRead], by simp [Op.late, Op.sendsRead]⟩

/-- What one step of a call does. -/
theorem step_readStep {w w' : World Message} {l : Label} {es : List (Event Message)}
    (h : Registered w) (hinput : ∀ t id, l = .thread t (.generated id) → id ≠ [])
    (hown : l.own = true) (hstep : step parse w l = some (w', es)) :
    ReadStep w w' (w.use l) := by
  cases callMoves_of_step hstep with
  | finishes hat =>
    rw [World.use, hat]
    exact finish_readStep h hat
  | @execs t op rest input _ _ hat hexec =>
    rw [World.use, hat]
    exact exec_readStep h (fun id hid => hinput t id (by rw [hid])) hat hexec
  | timerFires harmed hat =>
    have hthreads : ({ w with armed := false } : World Message).threads = w.threads := rfl
    obtain ⟨hreg, hsends⟩ := h.starts hat hthreads rfl rfl (mayStart_finishRpc w _) (by simp) id id
    exact ⟨hreg, rfl, Or.inl rfl, fun hs => Or.inl (hsends hs), by simp [World.use]⟩
  | @connectReturns t errorCode errorInfo hconnecting hat =>
    have hthreads : ({ w with client := { w.client with
        connecting := false
        connectErrorCode := errorCode
        connectErrorInfo := errorInfo } } : World Message).threads = w.threads := rfl
    have hx : MayStart w .connected :=
      ⟨rfl, fun _ => h.known (Or.inr hconnecting), fun _ => hconnecting⟩
    obtain ⟨hreg, hsends⟩ := h.starts hat hthreads rfl rfl hx (by simp) id (by simp)
    exact ⟨hreg, rfl, Or.inl rfl, fun hs => Or.inl (hsends hs), by simp [World.use]⟩
  | responseArrives | readReplaced => exact absurd hown (by simp [Label.own])

/-- The table gives a response to the call. -/
theorem Registered.arrival {w w' : World Message} {t : ThreadId} {msg : AbstractProtocol}
    {es : List (Event Message)} (h : Registered w)
    (hstep : step parse w (.responseArrives t msg) = some (w', es)) :
    Registered w' ∧ w'.state = w.state ∧ (w'.Sending → w.Sending) := by
  cases callMoves_of_step hstep with
  | responseArrives _ hat =>
    have hthreads : ({ w with client := { w.client with readCallback := false } } :
      World Message).threads = w.threads := rfl
    obtain ⟨hreg, hsends⟩ :=
      h.starts hat hthreads rfl rfl (mayStart_finishRpc w _) (by simp) (by simp) id
    exact ⟨hreg, rfl, hsends⟩

/-- The call loses its callback to another one, or to `stop`. -/
theorem Registered.dropRead {w : World Message} (h : Registered w) : Registered w.dropRead where
  others := h.others
  tail := h.tail
  quiet := fun hearly => ⟨rfl, (h.quiet hearly).2⟩
  needs := h.needs
  known := fun hflag => h.known (hflag.imp_left fun hf => absurd hf (by simp [World.dropRead]))
  cancels := fun hflag => absurd hflag (by simp [World.dropRead])

theorem call_registered (channel : RpcChannel) (args : Arguments) (call : Call)
    (controller : RpcController) (response : Message) :
    Registered (World.call channel args call controller response) ∧
      ¬ (World.call channel args call controller response).Sending := by
  -- the code of the caller's thread, and of no other
  have hcall : ∃ (w : World Message) (code : List (Op Message)),
      World.call channel args call controller response = w.goOn caller code ∧
        w.client.readCallback = false ∧ w.client.connecting = false ∧
        w.threads = (fun _ => {}) ∧ (code = .acquire :: call.code ∨ code = call.code) := by
    rw [World.call]
    split
    · exact ⟨_, _, rfl, rfl, rfl, rfl, Or.inl rfl⟩
    · rw [World.refused]
      split
      · exact ⟨_, _, rfl, rfl, rfl, rfl, Or.inr rfl⟩
      · exact ⟨_, _, rfl, rfl, rfl, rfl, Or.inr rfl⟩
  obtain ⟨w, code, heq, hread, hconnecting, hthreads, hcode⟩ := hcall
  have hops : ∀ op ∈ (call.code : List (Op Message)), op = .waitFor := by
    cases call <;> simp [Call.code]
  have hat : ∀ t, (w.goOn caller code).threads t = if t = caller then ⟨none, code⟩ else {} := by
    intro t
    rw [goOn, threads_setThread, hthreads]
  have hmem : ∀ {t op}, op ∈ ((w.goOn caller code).threads t).code →
      t = caller ∧ (op = .acquire ∨ op = .waitFor) := by
    intro t op hop
    rw [hat] at hop
    split at hop
    · rename_i ht
      rcases hcode with rfl | rfl
      · exact ⟨ht, (List.mem_cons.mp hop).imp_right (hops op)⟩
      · exact ⟨ht, Or.inr (hops op hop)⟩
    · exact absurd hop (by simp)
  rw [heq]
  refine ⟨⟨?_, ?_, fun _ => ⟨hread, hconnecting, ?_⟩, ?_, ?_, ?_⟩, ?_⟩
  · exact fun t ht op hop => absurd (hmem hop).1 ht
  · intro op hop
    rw [hat, if_pos rfl] at hop
    rcases hcode with rfl | rfl
    · rw [hops op hop]
      rfl
    · rw [hops op (List.mem_of_mem_tail hop)]
      rfl
  · intro t op hop
    rcases (hmem hop).2 with rfl | rfl <;> rfl
  · intro t op hop
    rcases (hmem hop).2 with rfl | rfl <;> simp [Op.Needs, Op.late, Op.sendsRead]
  · intro hflag
    rcases hflag with hflag | hflag
    · exact absurd (hread.symm.trans hflag) (by simp)
    · exact absurd (hconnecting.symm.trans hflag) (by simp)
  · exact fun hflag => absurd (hread.symm.trans hflag) (by simp)
  · rintro ⟨t, hop | hop⟩
    · exact absurd (hmem hop).2 (by simp)
    · exact absurd (hmem hop).2 (by simp)

end RocketRpc.Rpc
