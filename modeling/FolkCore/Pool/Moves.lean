import FolkCore.Pool.Commands

/-!
# Everything the pool can do

`Move` lists the transitions of the pool with their guards and the states they
lead to; a supervisor's transition carries the `Slot.Move` it makes. As for one
supervisor, the invariants of the pool are read off this list.
-/

namespace FolkCore.Pool

open Function

variable {R : Runtime} {serde : SerdeJson} {cfg : WorkersConfig} {s t : State R}

/-- A caller that listens: it collects or reads its stream. -/
def CallStage.Listening : CallStage → Prop
  | .collecting _ _ => True
  | .streaming => True
  | _ => False

inductive Move (serde : SerdeJson) (cfg : WorkersConfig) (s : State R) :
    Action R → State R → Prop
  | refused {inv : Invocation} {e : CallError} (hargs : inv.arguments serde = .error e) :
      Move serde cfg s (.invoke inv)
        ({ s with callCount := s.callCount + 1 }.answer s.callCount (.error e))
  | opened {inv : Invocation} {kind : CallKind} {req : DispatchRequest}
      (hopen : s.poolOpen = true) (hpermit : 0 < s.permits)
      (htx : req.streamTx = s.callCount) (hid : req.requestId = s.callCount)
      (hargs : inv.arguments serde = .ok (kind, req.method, req.payload, req.requestBody)) :
      Move serde cfg s (.invoke inv)
        (({ s with permits := s.permits - 1, callCount := s.callCount + 1 }.setStream
          s.callCount ⟨none, true, true, []⟩).setCall s.callCount (.sending kind req))
  | poolGone {k : Nat} {kind : CallKind} {req : DispatchRequest}
      (hcall : s.calls k = .sending kind req) (hmain : s.main = .exited) :
      Move serde cfg s (.submit k) ((s.discard [req]).answer k (.error .poolGone))
  | submitted {k : Nat} {kind : CallKind} {req : DispatchRequest}
      (hcall : s.calls k = .sending kind req) (hroom : s.requestCh.length < 1024) :
      Move serde cfg s (.submit k)
        ({ s with requestCh := s.requestCh ++ [req] }.setCall k kind.listen)
  | collected {k : Nat} {kind : CallKind} {acc acc' : Collected} {c : ResponseChunk}
      {rest : List ResponseChunk} (hcall : s.calls k = .collecting kind acc)
      (hbuffer : (s.streams k).buffer = c :: rest) (htake : acc.take c = .inl acc') :
      Move serde cfg s (.receive k)
        ((s.setStream k { s.streams k with buffer := rest }).setCall k
          (.collecting kind acc'))
  | judged {k : Nat} {kind : CallKind} {acc : Collected} {c : ResponseChunk}
      {rest : List ResponseChunk} {r : Except WorkerError Value}
      (hcall : s.calls k = .collecting kind acc)
      (hbuffer : (s.streams k).buffer = c :: rest) (htake : acc.take c = .inr r) :
      Move serde cfg s (.receive k) (s.answer k (kind.reply serde k r))
  | exhausted {k : Nat} {kind : CallKind} {acc : Collected}
      (hcall : s.calls k = .collecting kind acc) (hbuffer : (s.streams k).buffer = [])
      (hclosed : (s.streams k).senderOpen = false) :
      Move serde cfg s (.receive k) (s.answer k (kind.reply serde k (.ok acc.finish)))
  | streamed {k : Nat} {c : ResponseChunk} {rest : List ResponseChunk}
      (hcall : s.calls k = .streaming) (hbuffer : (s.streams k).buffer = c :: rest) :
      Move serde cfg s (.receive k) (s.setStream k { s.streams k with buffer := rest })
  | withdrawn {k : Nat} {kind : CallKind} {req : DispatchRequest}
      (hcall : s.calls k = .sending kind req) :
      Move serde cfg s (.cancel k) (((s.discard [req]).hangUp k).setCall k .cancelled)
  | cancelled {k : Nat} (hcall : (s.calls k).Listening) :
      Move serde cfg s (.cancel k) ((s.hangUp k).setCall k .cancelled)
  | reloaded (hopen : s.poolOpen = true) :
      Move serde cfg s .reload { s with generation := s.generation + 1 }
  | poolDropped (hopen : s.poolOpen = true)
      (hcalls : ∀ k < s.callCount, (s.calls k).borrows = false) :
      Move serde cfg s .dropPool { s with poolOpen := false }
  | ticked {d : Nat} : Move serde cfg s (.tick d) { s with now := s.now + d }
  | mainTook {req : DispatchRequest} {rest : List DispatchRequest}
      (hmain : s.main = .receiving) (hch : s.requestCh = req :: rest) :
      Move serde cfg s .mainRecv { s with main := .forwarding req 0, requestCh := rest }
  | mainLeft (hmain : s.main = .receiving) (hch : s.requestCh = [])
      (hclosed : s.poolOpen = false) :
      Move serde cfg s .mainRecv { s with main := .awaiting }
  | skipped {req : DispatchRequest} {attempt : Nat}
      (hmain : s.main = .forwarding req attempt) (hattempt : attempt < cfg.count)
      (hdead : s.dead ((s.next + attempt) % cfg.count) = true) :
      Move serde cfg s .mainForward { s with main := .forwarding req (attempt + 1) }
  | delivered {req : DispatchRequest} {attempt : Nat}
      (hmain : s.main = .forwarding req attempt) (hattempt : attempt < cfg.count)
      (hdead : s.dead ((s.next + attempt) % cfg.count) = false)
      (hlive : (s.slots ((s.next + attempt) % cfg.count)).phase.live = true)
      (hroom : (s.slots ((s.next + attempt) % cfg.count)).inbox.length < 8) :
      Move serde cfg s .mainForward (deliver s ((s.next + attempt) % cfg.count) req)
  | buried {req : DispatchRequest} {attempt : Nat}
      (hmain : s.main = .forwarding req attempt) (hattempt : attempt < cfg.count)
      (hdead : s.dead ((s.next + attempt) % cfg.count) = false)
      (hlive : (s.slots ((s.next + attempt) % cfg.count)).phase.live = false) :
      Move serde cfg s .mainForward
        { s with
          main := .forwarding req (attempt + 1)
          dead := update s.dead ((s.next + attempt) % cfg.count) true }
  | abandoned {req : DispatchRequest} {attempt : Nat}
      (hmain : s.main = .forwarding req attempt) (hattempt : cfg.count ≤ attempt) :
      Move serde cfg s .mainForward { s.discard [req] with main := .receiving }
  | joined (hmain : s.main = .awaiting)
      (hslots : ∀ i < cfg.count, (s.slots i).phase.live = false) :
      Move serde cfg s .mainJoin { s with main := .exited }
  | supervised {i : Nat} {a : SupervisorAction R} {r : Slot × List (Command R)}
      (hi : i < cfg.count) (hstep : (s.slots i).step cfg i s.view a = some r)
      (move : Slot.Move cfg i s.view (s.slots i) a r.1 r.2) :
      Move serde cfg s (.supervise i a) (s.supervise i r)
  | worked {w : Nat} {a : R.Act} {h h' : R.Worker} (hw : s.workers w = some h)
      (hact : R.act h a = some (h', none)) :
      Move serde cfg s (.work w a) { s with workers := update s.workers w (some h') }
  | pushed {w : Nat} {a : R.Act} {h h' : R.Worker} {tx : StreamTx} {c : ResponseChunk}
      (hw : s.workers w = some h) (hact : R.act h a = some (h', some (.push tx c)))
      (howner : (s.streams tx).owner = some w) (hsender : (s.streams tx).senderOpen = true)
      (hreceiver : (s.streams tx).receiverOpen = true)
      (hroom : (s.streams tx).buffer.length < 64) :
      Move serde cfg s (.work w a)
        (({ s with workers := update s.workers w (some h') }.setStream tx
          { s.streams tx with buffer := (s.streams tx).buffer ++ [c] }).note (.pushed w tx c))
  | pushLost {w : Nat} {a : R.Act} {h h' : R.Worker} {tx : StreamTx} {c : ResponseChunk}
      (hw : s.workers w = some h) (hact : R.act h a = some (h', some (.push tx c)))
      (howner : (s.streams tx).owner = some w) (hsender : (s.streams tx).senderOpen = true)
      (hreceiver : (s.streams tx).receiverOpen = false) :
      Move serde cfg s (.work w a) { s with workers := update s.workers w (some h') }
  | closed {w : Nat} {a : R.Act} {h h' : R.Worker} {tx : StreamTx}
      (hw : s.workers w = some h) (hact : R.act h a = some (h', some (.close tx)))
      (howner : (s.streams tx).owner = some w) (hsender : (s.streams tx).senderOpen = true) :
      Move serde cfg s (.work w a)
        ({ s with workers := update s.workers w (some h') }.setStream tx
          { s.streams tx with senderOpen := false })

theorem move_of_invoke {inv : Invocation} (h : invoke serde s inv = some t) :
    Move serde cfg s (.invoke inv) t := by
  unfold invoke at h
  split at h
  · next e hargs =>
      cases h
      exact .refused hargs
  · next kind method payload body hargs =>
      split at h
      · next hguard =>
          cases h
          exact .opened hguard.1 hguard.2 rfl rfl hargs
      · cases h

theorem move_of_submit {k : Nat} (h : submit s k = some t) :
    Move serde cfg s (.submit k) t := by
  unfold submit at h
  split at h
  · next kind req hcall =>
      split at h
      · next hmain =>
          cases h
          exact .poolGone hcall hmain
      · split at h
        · next hroom =>
            cases h
            exact .submitted hcall hroom
        · cases h
  · cases h

theorem move_of_receive {k : Nat} (h : receive serde s k = some t) :
    Move serde cfg s (.receive k) t := by
  unfold receive at h
  split at h
  · next kind acc c rest hcall hbuffer =>
      split at h
      · next acc' htake =>
          cases h
          exact .collected hcall hbuffer htake
      · next r htake =>
          cases h
          exact .judged hcall hbuffer htake
  · next kind acc hcall hbuffer =>
      split at h
      · cases h
      · next hclosed =>
          cases h
          exact .exhausted hcall hbuffer (Bool.eq_false_iff.mpr hclosed)
  · next c rest hcall hbuffer =>
      cases h
      exact .streamed hcall hbuffer
  · cases h

theorem move_of_cancel {k : Nat} (h : cancel s k = some t) :
    Move serde cfg s (.cancel k) t := by
  unfold cancel at h
  split at h
  · next kind req hcall =>
      cases h
      exact .withdrawn hcall
  · next kind acc hcall =>
      cases h
      apply Move.cancelled
      rw [hcall]
      trivial
  · next hcall =>
      cases h
      apply Move.cancelled
      rw [hcall]
      trivial
  · cases h

theorem move_of_mainRecv (h : mainRecv s = some t) : Move serde cfg s .mainRecv t := by
  unfold mainRecv at h
  split at h
  · next req rest hmain hch =>
      cases h
      exact .mainTook hmain hch
  · next hmain hch =>
      split at h
      · cases h
      · next hclosed =>
          cases h
          exact .mainLeft hmain hch (Bool.eq_false_iff.mpr hclosed)
  · cases h

theorem move_of_mainForward (h : mainForward cfg s = some t) :
    Move serde cfg s .mainForward t := by
  unfold mainForward at h
  split at h
  · next req attempt hmain =>
      split at h
      · next hattempt =>
          simp only at h
          split at h
          · next hdead =>
              cases h
              exact .skipped hmain hattempt hdead
          · next hdead =>
              rw [Bool.not_eq_true] at hdead
              split at h
              · next hlive =>
                  split at h
                  · next hroom =>
                      cases h
                      exact .delivered hmain hattempt hdead hlive hroom
                  · cases h
              · next hlive =>
                  cases h
                  exact .buried hmain hattempt hdead (Bool.eq_false_iff.mpr hlive)
      · next hattempt =>
          cases h
          exact .abandoned hmain (Nat.le_of_not_lt hattempt)
  · cases h

theorem move_of_mainJoin (h : mainJoin cfg s = some t) : Move serde cfg s .mainJoin t := by
  unfold mainJoin at h
  split at h
  · next hmain =>
      split at h
      · next hslots =>
          cases h
          apply Move.joined hmain
          simpa using hslots
      · cases h
  · cases h

theorem move_of_work {w : Nat} {a : R.Act} (h : work s w a = some t) :
    Move serde cfg s (.work w a) t := by
  unfold work at h
  obtain ⟨worker, hw, hrest⟩ := Option.bind_eq_some_iff.mp h
  obtain ⟨⟨h', op⟩, hact, hstep⟩ := Option.bind_eq_some_iff.mp hrest
  cases op with
  | none =>
      cases hstep
      exact .worked hw hact
  | some op =>
      cases op with
      | push tx c =>
          simp only at hstep
          split at hstep
          · next hguard =>
              split at hstep
              · next hreceiver =>
                  split at hstep
                  · next hroom =>
                      cases hstep
                      exact .pushed hw hact hguard.1 hguard.2 hreceiver hroom
                  · cases hstep
              · next hreceiver =>
                  cases hstep
                  exact .pushLost hw hact hguard.1 hguard.2 (Bool.eq_false_iff.mpr hreceiver)
          · cases hstep
      | close tx =>
          simp only at hstep
          split at hstep
          · next hguard =>
              cases hstep
              exact .closed hw hact hguard.1 hguard.2
          · cases hstep

/-- Every step of the pool is one of the listed moves. -/
theorem step_move {a : Action R} (h : step serde cfg s a = some t) :
    Move serde cfg s a t := by
  cases a with
  | invoke inv => exact move_of_invoke h
  | submit k => exact move_of_submit h
  | receive k => exact move_of_receive h
  | cancel k => exact move_of_cancel h
  | reload =>
      simp only [step] at h
      split at h
      · next hopen =>
          cases h
          exact .reloaded hopen
      · cases h
  | dropPool =>
      simp only [step] at h
      split at h
      · next hguard =>
          cases h
          apply Move.poolDropped hguard.1
          simpa using hguard.2
      · cases h
  | tick d =>
      cases h
      exact .ticked
  | mainRecv => exact move_of_mainRecv h
  | mainForward => exact move_of_mainForward h
  | mainJoin => exact move_of_mainJoin h
  | supervise i a =>
      simp only [step] at h
      split at h
      · next hi =>
          obtain ⟨r, hstep, rfl⟩ := Option.map_eq_some_iff.mp h
          exact .supervised hi hstep (Slot.step_move hstep)
      · cases h
  | work w a => exact move_of_work h

end FolkCore.Pool
