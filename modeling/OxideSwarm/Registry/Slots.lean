import OxideSwarm.Registry.Tended

/-!
# What the registry operations do to the slot counts

`activeTasks` of an entry counts the dispatch slots of its session.  `Steady r r'` is an operation that
leaves the count of every live session alone and revives nobody; a disconnected entry counts zero
(`Idle`).  For the operations that do change a count, `<operation>_cases` says which entry they put: a
reservation, the two ways to give a slot back, and a heartbeat that revives a session.
-/

namespace OxideSwarm

variable [Host]

namespace WorkerRegistryInner

/-- A disconnected worker holds no slot. -/
def Idle (r : WorkerRegistryInner) : Prop :=
  ∀ w e, r.workers.get w = some e → e.status = .disconnected → e.activeTasks = 0

/-- Every session that is live after the operation was live before, with as many slots taken. -/
structure Steady (r r' : WorkerRegistryInner) : Prop where
  live : ∀ w e', r'.workers.get w = some e' → e'.status ≠ .disconnected →
    ∃ e, r.workers.get w = some e ∧ e.status ≠ .disconnected ∧ e'.sessionId = e.sessionId ∧
      e'.activeTasks = e.activeTasks
  idle : r.Idle → r'.Idle

section

variable {r r' r'' : WorkerRegistryInner} {w : Uuid} {e e' : WorkerEntry}

section

omit [Host]

theorem Steady.refl (r : WorkerRegistryInner) : Steady r r :=
  ⟨fun _ e' he' hs => ⟨e', he', hs, rfl, rfl⟩, fun h => h⟩

theorem Steady.trans (h : Steady r r') (h' : Steady r' r'') : Steady r r'' where
  live w e2 he2 hs2 := by
    obtain ⟨e1, he1, hs1, hn1, ha1⟩ := h'.live w e2 he2 hs2
    obtain ⟨e, he, hs, hn, ha⟩ := h.live w e1 he1 hs1
    exact ⟨e, he, hs, hn1.trans hn, ha1.trans ha⟩
  idle hr := h'.idle (h.idle hr)

theorem steady_put (he : r.workers.get w = some e) (hn : e'.sessionId = e.sessionId)
    (ha : e'.activeTasks = e.activeTasks) (hs : e'.status = .disconnected ↔ e.status = .disconnected) :
    Steady r (r.put w e') where
  live u e1 h1 hs1 := by
    change (r.workers.set w e').get u = some e1 at h1
    rw [FMap.get_set] at h1
    split at h1
    · next hu =>
      cases h1
      exact ⟨e, by rw [hu]; exact he, fun h => hs1 (hs.mpr h), hn, ha⟩
    · exact ⟨e1, h1, hs1, rfl, rfl⟩
  idle hr u e1 h1 hs1 := by
    change (r.workers.set w e').get u = some e1 at h1
    rw [FMap.get_set] at h1
    split at h1
    · cases h1
      rw [ha]
      exact hr w e he (hs.mp hs1)
    · exact hr u e1 h1 hs1

theorem steady_disconnect : Steady r (r.put w e.disconnect) where
  live u e1 h1 hs1 := by
    change (r.workers.set w e.disconnect).get u = some e1 at h1
    rw [FMap.get_set] at h1
    split at h1
    · cases h1
      exact absurd rfl hs1
    · exact ⟨e1, h1, hs1, rfl, rfl⟩
  idle hr u e1 h1 hs1 := by
    change (r.workers.set w e.disconnect).get u = some e1 at h1
    rw [FMap.get_set] at h1
    split at h1
    · cases h1
      rfl
    · exact hr u e1 h1 hs1

/-! ## Operations that leave the counts alone -/

theorem setRxClock_steady (r : WorkerRegistryInner) (w : Uuid) (n : Nat) (lastRx : Instant) :
    Steady r (r.setRxClock w n lastRx) := by
  unfold setRxClock
  split
  · next e he =>
    split
    · exact steady_put he rfl rfl Iff.rfl
    · exact .refl r
  · exact .refl r

theorem updateMobileTelemetry_steady (r : WorkerRegistryInner) (w : Uuid) (expected : Option Nat)
    (status : MobileLiveStatus) : Steady r (r.updateMobileTelemetry w expected status).2 := by
  unfold updateMobileTelemetry
  split
  · exact .refl r
  next e he =>
  split
  · exact .refl r
  · exact steady_put he rfl rfl Iff.rfl

theorem recordRejection_steady (r : WorkerRegistryInner) (w : Uuid) (expected : Option Nat)
    (now : Instant) : Steady r (r.recordRejection w expected now).2 := by
  unfold recordRejection
  split
  · exact .refl r
  next e he =>
  split
  · exact .refl r
  · exact steady_put he rfl rfl Iff.rfl

theorem clearRejections_steady (r : WorkerRegistryInner) (w : Uuid) : Steady r (r.clearRejections w) := by
  unfold clearRejections
  split
  · next e he => exact steady_put he rfl rfl Iff.rfl
  · exact .refl r

theorem pruneStaleWorkers_steady (r : WorkerRegistryInner) (order : SetOrder Uuid) (now : Instant)
    (timeout : Nat) : Steady r (r.pruneStaleWorkers order now timeout) := by
  have hget : ∀ u e', (r.pruneStaleWorkers order now timeout).workers.get u = some e' →
      r.workers.get u = some e' := by
    intro u e' h
    change (List.foldl FMap.del r.workers _).get u = some e' at h
    rw [get_foldl_del] at h
    split at h
    · cases h
    · exact h
  exact ⟨fun u e' he' hs => ⟨e', hget u e' he', hs, rfl, rfl⟩, fun hr u e' he' => hr u e' (hget u e' he')⟩

theorem unregister_steady (r : WorkerRegistryInner) (w : Uuid) (n : Nat) (current : Option ConnId) :
    Steady r (r.unregister w (some n) current).2 := by
  rcases unregister_cases r w n current with heq | ⟨e, -, -, -, heq⟩
  · rw [heq]
    exact .refl r
  · rw [heq]
    exact steady_disconnect

theorem reapStaleSessions_steady (now : Instant) (timeout : Nat) (current : Option ConnId)
    (candidates : List Uuid) : ∀ r : WorkerRegistryInner,
      Steady r (r.reapStaleSessions now timeout current candidates).2 := by
  induction candidates with
  | nil => exact fun r => Steady.refl r
  | cons w rest ih =>
    intro r
    unfold reapStaleSessions
    split
    · split
      · exact steady_disconnect.trans (ih _)
      · exact ih r
    · exact ih r

/-! ## Operations that change a count -/

theorem idle_put (hr : r.Idle) (he' : e'.status = .disconnected → e'.activeTasks = 0) : (r.put w e').Idle := by
  intro u e1 h1 hs1
  change (r.workers.set w e').get u = some e1 at h1
  rw [FMap.get_set] at h1
  split at h1
  · cases h1
    exact he' hs1
  · exact hr u e1 h1 hs1

theorem giveBack_activeTasks (e : WorkerEntry) : e.giveBack.activeTasks = e.activeTasks - 1 := by
  unfold WorkerEntry.giveBack
  dsimp only
  split <;> rfl

theorem giveBack_disconnected {e : WorkerEntry} (h : e.status = .disconnected) :
    e.giveBack.status = .disconnected := by
  unfold WorkerEntry.giveBack
  simp [h]

theorem decrementActiveTasks_cases (r : WorkerRegistryInner) (w : Uuid) :
    (r.workers.get w = none ∧ (r.decrementActiveTasks w).2 = r) ∨
    ∃ e, r.workers.get w = some e ∧ (r.decrementActiveTasks w).2 = r.put w e.giveBack := by
  unfold decrementActiveTasks
  split
  · next hnone => exact .inl ⟨hnone, rfl⟩
  · next e he => exact .inr ⟨e, he, rfl⟩

theorem releaseDispatch_cases (r : WorkerRegistryInner) (w : Uuid) (n : Nat) :
    (r.releaseDispatch w n = r ∧ ∀ e, r.workers.get w = some e → e.sessionId ≠ n) ∨
    ∃ e, r.workers.get w = some e ∧ e.sessionId = n ∧ r.releaseDispatch w n = r.put w e.giveBack := by
  unfold releaseDispatch
  split
  · next e he =>
    split
    · next hn => exact .inr ⟨e, he, hn, rfl⟩
    next hn =>
    refine .inl ⟨rfl, fun e1 he1 => ?_⟩
    cases he.symm.trans he1
    exact hn
  · next hnone => exact .inl ⟨rfl, fun e he => absurd (hnone.symm.trans he) (Option.some_ne_none e).symm⟩

theorem reserveDispatch_cases (r : WorkerRegistryInner) (w : Uuid) (n : Nat) :
    (∃ err, (r.reserveDispatch w n).1 = .error err ∧ (r.reserveDispatch w n).2 = r) ∨
    ∃ e e', r.workers.get w = some e ∧ e.sessionId = n ∧ e.status ≠ .disconnected ∧
      (r.reserveDispatch w n).1 = .ok () ∧ (r.reserveDispatch w n).2 = r.put w e' ∧
      e'.sessionId = n ∧ e'.activeTasks = e.activeTasks + 1 ∧ e'.status ≠ .disconnected := by
  unfold reserveDispatch
  split
  · exact .inl ⟨_, rfl, rfl⟩
  next e he =>
  split
  · exact .inl ⟨_, rfl, rfl⟩
  next hcond =>
  rw [not_or, not_not] at hcond
  refine .inr ⟨e, _, he, hcond.1, hcond.2, rfl, rfl, hcond.1, rfl, ?_⟩
  dsimp only
  split
  · decide
  · exact hcond.2

theorem beatEntry_activeTasks (e : WorkerEntry) (active : Nat) (cpu : F32) (ram : Nat) (revive : Bool)
    (now : Instant) : (beatEntry e active cpu ram revive now).activeTasks = e.activeTasks := by
  unfold beatEntry
  split <;> rfl

/-- A heartbeat keeps the counts, or revives the session it is from. -/
theorem recordHeartbeatSession_cases (r : WorkerRegistryInner) (w : Uuid) (active : Nat) (cpu : F32)
    (ram : Nat) (n : Nat) (now : Instant) : Steady r (r.recordHeartbeatSession w active cpu ram (some n) now).2 ∨
    ∃ e e', r.workers.get w = some e ∧ e.sessionId = n ∧ e.status = .disconnected ∧
      (r.recordHeartbeatSession w active cpu ram (some n) now).2 = r.put w e' ∧ e'.sessionId = n ∧
      e'.activeTasks = e.activeTasks := by
  unfold recordHeartbeatSession
  split
  · exact .inl (Steady.refl r)
  next e he =>
  split
  · exact .inl (Steady.refl r)
  next hsession =>
  have hn : e.sessionId = n := by simpa [mismatched] using hsession
  have hkept := beatEntry_kept e active cpu ram (e.status == .disconnected && (some n).isSome) now
  by_cases hs : e.status = .disconnected
  · exact .inr ⟨e, _, he, hn, hs, rfl, hkept.session.trans hn, beatEntry_activeTasks ..⟩
  · exact .inl (steady_put he hkept.session (beatEntry_activeTasks ..)
      ⟨fun h => absurd h (hkept.status hs), fun h => absurd h hs⟩)

end

end

end WorkerRegistryInner

end OxideSwarm
