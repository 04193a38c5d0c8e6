import OxideSwarm.Registry.Ops

/-!
# What the registry operations do to the entries

`Tended r r' D` describes an operation that registers nobody: no entry appears, every entry keeps its
session, and the sessions that stop being live are those in `D`.  There is one lemma `<operation>_tended`
for each such operation.  `Registered` is what every registry satisfies: session ids are handed out once,
and an entry's abort handle names its own connection.
-/

namespace OxideSwarm

variable [Host]

namespace WorkerRegistryInner

/-- The registry holds `w` with session `n`, and not as disconnected. -/
def Live (r : WorkerRegistryInner) (w : Uuid) (n : Nat) : Prop :=
  ∃ e, r.workers.get w = some e ∧ e.sessionId = n ∧ e.status ≠ .disconnected

instance (r : WorkerRegistryInner) (w : Uuid) (n : Nat) : Decidable (r.Live w n) :=
  decidable_of_iff
    ((r.workers.get w).any (fun e => decide (e.sessionId = n ∧ e.status ≠ .disconnected)) = true) (by
      unfold Live
      simp only [Option.any_eq_true, decide_eq_true_eq])

/-- How an entry may change while its connection is the same. -/
structure EntryKept (e e' : WorkerEntry) : Prop where
  session : e'.sessionId = e.sessionId
  handle : e'.abortHandle = e.abortHandle
  status : e.status ≠ .disconnected → e'.status ≠ .disconnected

/-- The entries after an operation that registers nobody and disconnects the sessions `D`. -/
structure Tended (r r' : WorkerRegistryInner) (D : Set (Uuid × Nat)) : Prop where
  next : r'.nextSessionId = r.nextSessionId
  known : ∀ w e', r'.workers.get w = some e' → ∃ e, r.workers.get w = some e ∧
    (EntryKept e e' ∨ (w, e.sessionId) ∈ D ∧ e'.sessionId = e.sessionId ∧ e'.abortHandle = none)
  live : ∀ w n, r.Live w n → (w, n) ∉ D → r'.Live w n

/-- Session ids are below the next one, and an abort handle is of the entry's own live connection. -/
def Registered (r : WorkerRegistryInner) : Prop :=
  ∀ w e, r.workers.get w = some e → e.sessionId < r.nextSessionId ∧
    ∀ c, e.abortHandle = some c → c = e.sessionId ∧ e.status ≠ .disconnected

section

variable {r r' r'' : WorkerRegistryInner} {D D' : Set (Uuid × Nat)} {w : Uuid} {e e' : WorkerEntry}

section

omit [Host]

theorem Tended.refl (r : WorkerRegistryInner) : Tended r r D where
  next := rfl
  known _ e' he' := ⟨e', he', Or.inl ⟨rfl, rfl, fun h => h⟩⟩
  live _ _ h _ := h

theorem Tended.registered (h : Tended r r' D) (hr : r.Registered) : r'.Registered := by
  intro w e' he'
  obtain ⟨e, he, hkept | ⟨-, hsession, hnone⟩⟩ := h.known w e' he'
  · obtain ⟨hlt, hhandle⟩ := hr w e he
    rw [h.next, hkept.session, hkept.handle]
    refine ⟨hlt, fun c hc => ?_⟩
    obtain ⟨hc', hstatus⟩ := hhandle c hc
    exact ⟨hc', hkept.status hstatus⟩
  · rw [h.next, hsession, hnone]
    exact ⟨(hr w e he).1, nofun⟩

theorem Tended.mono (h : Tended r r' D) (hD : D ⊆ D') : Tended r r' D' where
  next := h.next
  known w e' he' := by
    obtain ⟨e, he, hkept | ⟨hmem, hsession, hnone⟩⟩ := h.known w e' he'
    · exact ⟨e, he, Or.inl hkept⟩
    · exact ⟨e, he, Or.inr ⟨hD hmem, hsession, hnone⟩⟩
  live w n hlive hn := h.live w n hlive fun hmem => hn (hD hmem)

theorem Tended.trans (h : Tended r r' D) (h' : Tended r' r'' D) : Tended r r'' D where
  next := h'.next.trans h.next
  known w e2 he2 := by
    obtain ⟨e1, he1, hkept1 | ⟨hmem1, hsession1, hnone1⟩⟩ := h'.known w e2 he2
    · obtain ⟨e, he, hkept | ⟨hmem, hsession, hnone⟩⟩ := h.known w e1 he1
      · refine ⟨e, he, Or.inl ⟨hkept1.session.trans hkept.session, hkept1.handle.trans hkept.handle, ?_⟩⟩
        exact fun hstatus => hkept1.status (hkept.status hstatus)
      · exact ⟨e, he, Or.inr ⟨hmem, hkept1.session.trans hsession, hkept1.handle.trans hnone⟩⟩
    · obtain ⟨e, he, hkept | ⟨hmem, hsession, -⟩⟩ := h.known w e1 he1
      · exact ⟨e, he, Or.inr ⟨hkept.session ▸ hmem1, hsession1.trans hkept.session, hnone1⟩⟩
      · exact ⟨e, he, Or.inr ⟨hmem, hsession1.trans hsession, hnone1⟩⟩
  live w n hlive hn := h'.live w n (h.live w n hlive hn) hn

theorem tended_put (he : r.workers.get w = some e) (hk : EntryKept e e') : Tended r (r.put w e') D where
  next := rfl
  known u e1 h1 := by
    change (r.workers.set w e').get u = some e1 at h1
    rw [FMap.get_set] at h1
    split at h1
    · next hu =>
      cases h1
      exact ⟨e, by rw [hu]; exact he, Or.inl hk⟩
    · exact ⟨e1, h1, Or.inl ⟨rfl, rfl, fun h => h⟩⟩
  live u n hlive _ := by
    obtain ⟨e1, h1, hn, hstatus⟩ := hlive
    by_cases hu : u = w
    · subst hu
      cases he.symm.trans h1
      exact ⟨e', by simp [put], hk.session.trans hn, hk.status hstatus⟩
    · exact ⟨e1, by simpa [put, hu] using h1, hn, hstatus⟩

theorem tended_disconnect (he : r.workers.get w = some e) (hD : (w, e.sessionId) ∈ D) :
    Tended r (r.put w e.disconnect) D where
  next := rfl
  known u e1 h1 := by
    change (r.workers.set w e.disconnect).get u = some e1 at h1
    rw [FMap.get_set] at h1
    split at h1
    · next hu =>
      cases h1
      exact ⟨e, by rw [hu]; exact he, Or.inr ⟨by rw [hu]; exact hD, rfl, rfl⟩⟩
    · exact ⟨e1, h1, Or.inl ⟨rfl, rfl, fun h => h⟩⟩
  live u n hlive hn := by
    obtain ⟨e1, h1, hs, hstatus⟩ := hlive
    have hu : u ≠ w := by
      rintro rfl
      cases he.symm.trans h1
      exact hn (hs ▸ hD)
    exact ⟨e1, by simpa [put, hu] using h1, hs, hstatus⟩

/-! ## The operations -/

theorem setRxClock_tended (r : WorkerRegistryInner) (w : Uuid) (n : Nat) (lastRx : Instant) :
    Tended r (r.setRxClock w n lastRx) D := by
  unfold setRxClock
  split
  · next e he =>
    split
    · exact tended_put he ⟨rfl, rfl, fun h => h⟩
    · exact .refl r
  · exact .refl r

theorem beatEntry_kept (e : WorkerEntry) (active : Nat) (cpu : F32) (ram : Nat) (revive : Bool)
    (now : Instant) : EntryKept e (beatEntry e active cpu ram revive now) := by
  unfold beatEntry
  split
  · refine ⟨rfl, rfl, fun _ => ?_⟩
    dsimp only
    split <;> decide
  · exact ⟨rfl, rfl, fun h => h⟩

theorem recordHeartbeatSession_tended (r : WorkerRegistryInner) (w : Uuid) (active : Nat) (cpu : F32)
    (ram : Nat) (expected : Option Nat) (now : Instant) :
    Tended r (r.recordHeartbeatSession w active cpu ram expected now).2 D := by
  unfold recordHeartbeatSession
  split
  · exact .refl r
  next e he =>
  split
  · exact .refl r
  · exact tended_put he (beatEntry_kept ..)

theorem updateMobileTelemetry_tended (r : WorkerRegistryInner) (w : Uuid) (expected : Option Nat)
    (status : MobileLiveStatus) : Tended r (r.updateMobileTelemetry w expected status).2 D := by
  unfold updateMobileTelemetry
  split
  · exact .refl r
  next e he =>
  split
  · exact .refl r
  · exact tended_put he ⟨rfl, rfl, fun h => h⟩

theorem recordRejection_tended (r : WorkerRegistryInner) (w : Uuid) (expected : Option Nat)
    (now : Instant) : Tended r (r.recordRejection w expected now).2 D := by
  unfold recordRejection
  split
  · exact .refl r
  next e he =>
  split
  · exact .refl r
  · exact tended_put he ⟨rfl, rfl, fun h => h⟩

theorem clearRejections_tended (r : WorkerRegistryInner) (w : Uuid) : Tended r (r.clearRejections w) D := by
  unfold clearRejections
  split
  · next e he => exact tended_put he ⟨rfl, rfl, fun h => h⟩
  · exact .refl r

theorem get_foldl_del (l : List Uuid) : ∀ (m : FMap Uuid WorkerEntry) (u : Uuid),
      (l.foldl FMap.del m).get u = if u ∈ l then none else m.get u := by
  induction l with
  | nil => exact fun m u => by simp
  | cons w rest ih =>
    intro m u
    rw [List.foldl_cons, ih, FMap.get_del]
    by_cases hu : u = w
    · simp [hu]
    · simp [hu]

theorem pruneStaleWorkers_tended (r : WorkerRegistryInner) (order : SetOrder Uuid) (now : Instant)
    (timeout : Nat) : Tended r (r.pruneStaleWorkers order now timeout) D where
  next := rfl
  known u e' h := by
    change (List.foldl FMap.del r.workers _).get u = some e' at h
    rw [get_foldl_del] at h
    split at h
    · cases h
    · exact ⟨e', h, Or.inl ⟨rfl, rfl, fun h => h⟩⟩
  live u n hlive _ := by
    obtain ⟨e, he, hn, hstatus⟩ := hlive
    refine ⟨e, ?_, hn, hstatus⟩
    show (List.foldl FMap.del r.workers _).get u = some e
    rw [get_foldl_del, if_neg]
    · exact he
    · intro hmem
      have hprunable := (List.mem_filter.mp hmem).2
      simp [he, isPrunable, hstatus] at hprunable

theorem giveBack_kept (e : WorkerEntry) : EntryKept e e.giveBack := by
  unfold WorkerEntry.giveBack
  dsimp only
  split
  · exact ⟨rfl, rfl, fun _ => nofun⟩
  · exact ⟨rfl, rfl, fun h => h⟩

theorem reserveDispatch_tended (r : WorkerRegistryInner) (w : Uuid) (n : Nat) :
    Tended r (r.reserveDispatch w n).2 D := by
  unfold reserveDispatch
  split
  · exact .refl r
  next e he =>
  split
  · exact .refl r
  refine tended_put he ⟨rfl, rfl, fun h => ?_⟩
  dsimp only
  split
  · decide
  · exact h

theorem reserveDispatch_live {r : WorkerRegistryInner} {w : Uuid} {n : Nat}
    (h : (r.reserveDispatch w n).1 = .ok ()) : r.Live w n := by
  unfold reserveDispatch at h
  split at h
  · cases h
  next e he =>
  split at h
  · cases h
  · next hcond =>
    rw [not_or, not_not] at hcond
    exact ⟨e, he, hcond.1, hcond.2⟩

theorem releaseDispatch_tended (r : WorkerRegistryInner) (w : Uuid) (n : Nat) :
    Tended r (r.releaseDispatch w n) D := by
  unfold releaseDispatch
  split
  · next e he =>
    split
    · exact tended_put he (giveBack_kept e)
    · exact .refl r
  · exact .refl r

theorem decrementActiveTasks_tended (r : WorkerRegistryInner) (w : Uuid) :
    Tended r (r.decrementActiveTasks w).2 D := by
  unfold decrementActiveTasks
  split
  · exact .refl r
  · next e he => exact tended_put he (giveBack_kept e)

end

end

/-! ## Disconnecting -/

section

variable (r : WorkerRegistryInner)

section

omit [Host]

theorem unregister_cases (w : Uuid) (n : Nat) (current : Option ConnId) :
    (r.unregister w (some n) current = ((false, none), r)) ∨
    ∃ e, r.workers.get w = some e ∧ e.sessionId = n ∧ e.status ≠ .disconnected ∧ r.unregister w (some n) current =
        ((true, abortUnlessCurrent e.abortHandle current), r.put w e.disconnect) := by
  unfold unregister
  split
  · next e he =>
    split
    · exact .inl rfl
    next hsession =>
    split
    · exact .inl rfl
    · next hstatus => exact .inr ⟨e, he, by simpa [mismatched] using hsession, hstatus, rfl⟩
  · exact .inl rfl

theorem reapStaleSessions_tended (now : Instant) (timeout : Nat) (current : Option ConnId)
    (candidates : List Uuid) : ∀ r : WorkerRegistryInner,
      Tended r (r.reapStaleSessions now timeout current candidates).2
        {x | x ∈ (r.reapStaleSessions now timeout current candidates).1.1} := by
  induction candidates with
  | nil => exact fun r => Tended.refl r
  | cons w rest ih =>
    intro r
    unfold reapStaleSessions
    split
    · next e he =>
      split
      · have hrest := ih (r.put w e.disconnect)
        refine (tended_disconnect he List.mem_cons_self).trans (hrest.mono fun x hx => ?_)
        exact List.mem_cons_of_mem _ hx
      · exact ih r
    · exact ih r

theorem reapStaleSessions_aborted (now : Instant) (timeout : Nat) (current : Option ConnId)
    (candidates : List Uuid) : ∀ (r : WorkerRegistryInner) (c : ConnId),
      c ∈ (r.reapStaleSessions now timeout current candidates).1.2 →
      ∃ w e, r.workers.get w = some e ∧ e.abortHandle = some c ∧
        (w, e.sessionId) ∈ (r.reapStaleSessions now timeout current candidates).1.1 := by
  induction candidates with
  | nil => exact fun r c hc => absurd hc List.not_mem_nil
  | cons w rest ih =>
    intro r c hc
    unfold reapStaleSessions at hc ⊢
    split at hc
    · next e he =>
      split at hc
      · next hreap =>
        simp only [hreap, if_true]
        rcases List.mem_append.mp hc with hhead | hrest
        · refine ⟨w, e, he, ?_, List.mem_cons_self⟩
          rw [Option.mem_toList] at hhead
          unfold abortUnlessCurrent at hhead
          split at hhead
          · cases hhead
          · exact hhead
        obtain ⟨u, e1, he1, hhandle, hmem⟩ := ih (r.put w e.disconnect) c hrest
        change (r.workers.set w e.disconnect).get u = some e1 at he1
        rw [FMap.get_set] at he1
        split at he1
        · cases he1
          cases hhandle
        · exact ⟨u, e1, he1, hhandle, List.mem_cons_of_mem _ hmem⟩
      · next hreap =>
        simp only [hreap]
        exact ih r c hc
    · exact ih r c hc

end

/-! ## Registering -/

variable (w : Uuid) (capabilities : WorkerCapabilities) (features : ProtocolCapabilities)
  (handle current : Option ConnId) (now : Instant)

section

omit [Host]

/-- The entries after a registration: the worker's is new, the others stay. -/
theorem registerSession_get : ∃ e', e'.sessionId = r.nextSessionId ∧ e'.status = .connected ∧
    e'.abortHandle = handle ∧ e'.activeTasks = 0 ∧ (r.registerSession w capabilities features handle current now).2 =
      { workers := r.workers.set w e', nextSessionId := r.nextSessionId + 1 } := by
  unfold registerSession
  split
  · exact ⟨_, rfl, rfl, rfl, rfl, rfl⟩
  · exact ⟨_, rfl, rfl, rfl, rfl, rfl⟩

theorem registerSession_superseded {n : Nat} :
    (r.registerSession w capabilities features handle current now).1.1.supersededSession = some n ↔ r.Live w n := by
  unfold registerSession Live
  split
  · next e he =>
    simp only [he, Option.some.injEq, exists_eq_left']
    split
    · next hstatus => simp [hstatus]
    · next hstatus => simp [hstatus]
  · next hnone => simp [hnone]

theorem registerSession_aborted {c : ConnId}
    (h : (r.registerSession w capabilities features handle current now).1.2 = some c) :
    ∃ e, r.workers.get w = some e ∧ e.abortHandle = some c := by
  unfold registerSession at h
  split at h
  · next e he =>
    refine ⟨e, he, ?_⟩
    dsimp only [abortUnlessCurrent] at h
    split at h
    · cases h
    · exact h
  · cases h

end

end

end WorkerRegistryInner

end OxideSwarm
