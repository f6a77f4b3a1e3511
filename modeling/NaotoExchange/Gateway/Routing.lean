import NaotoExchange.Lib.Run
import NaotoExchange.Gateway.Proof.ClientStatesWriter

/-!
# Which descriptor a trade report reaches

The writer finds the descriptor of a report's client in `ClientsFd`, here a first-insert-wins finite
map. A login deletes the entry of the client that was published on its descriptor before and adds
its own.

* `run_routes`: as long as neither of the two entries is for another descriptor (`Exclusive`), every
  client is found where it last logged in.
* `relogin_misroutes`: a client that comes back on another descriptor keeps its old entry, and a
  login on a fresh descriptor deletes the entry of client 0.
-/

namespace Naoto.Gateway

open Run

/-- What changes which descriptor a client's reports go to, and the reports. -/
inductive RoutingEvent where
  | login (response : ClientAccountSnapshot)
  | disconnect (fd : UInt32)
  | reports (batch : List OrderStateReport)
  deriving DecidableEq

/-- The writer with `ClientsFd` as a finite map. -/
abbrev Writer := ClientStatesWriter (FiniteMap UInt32 UInt32)

namespace Writer

/-- The writer handles the event. -/
def step (w : Writer) : RoutingEvent → Writer
  | .login response => w.handleResponse response
  | .disconnect fd => w.handleDisconnect fd
  | .reports batch => w.handleReports batch

/-- The most recent login of `c` was on `f`, and nobody has logged in on `f` since. -/
def LoggedInOn (events : List RoutingEvent) (c f : UInt32) : Prop :=
  ∃ xs response ys, events = xs ++ .login response :: ys ∧ response.clientId = c ∧
    response.clientFd = f ∧ ∀ r, .login r ∈ ys → r.clientId ≠ c ∧ r.clientFd ≠ f

/-- The response is not skipped. -/
def Current (w : Writer) : RoutingEvent → Prop
  | .login response => w.stale response = false
  | _ => True

/-- The entries of the client that logs in and of the client published on its descriptor are for
this descriptor, if there are any. -/
def Exclusive (w : Writer) : RoutingEvent → Prop
  | .login response => ∀ k ∈ [response.clientId, w.states.getClientId response.clientFd],
      w.clientsFd k = none ∨ w.clientsFd k = some response.clientFd
  | _ => True

instance (w : Writer) : ∀ e : RoutingEvent, Decidable (Current w e)
  | .login response => inferInstanceAs (Decidable (w.stale response = false))
  | .disconnect _ => .isTrue trivial
  | .reports _ => .isTrue trivial

-- over the list, not over all of `UInt32`
instance (w : Writer) : ∀ e : RoutingEvent, Decidable (Exclusive w e)
  | .login response => List.decidableBAll
      (fun k => w.clientsFd k = none ∨ w.clientsFd k = some response.clientFd)
      [response.clientId, w.states.getClientId response.clientFd]
  | .disconnect _ => .isTrue trivial
  | .reports _ => .isTrue trivial

/-! ## The history of a descriptor -/

theorem loggedInOn_snoc {xs : List RoutingEvent} {e : RoutingEvent} {c f : UInt32}
    (h : LoggedInOn (xs ++ [e]) c f) :
    (∃ response, e = .login response ∧ response.clientId = c ∧ response.clientFd = f) ∨
      (LoggedInOn xs c f ∧ ∀ r, e = .login r → r.clientId ≠ c ∧ r.clientFd ≠ f) := by
  obtain ⟨ys, response, zs, heq, hc, hf, hlater⟩ := h
  cases zs using List.reverseRecOn with
  | nil =>
    obtain ⟨-, he⟩ := List.append_inj' heq rfl
    exact .inl ⟨response, (List.singleton_inj.1 he), hc, hf⟩
  | append_singleton zs e' =>
    rw [show ys ++ .login response :: (zs ++ [e']) = (ys ++ .login response :: zs) ++ [e'] by simp]
      at heq
    obtain ⟨hxs, he⟩ := List.append_inj' heq rfl
    have he' := List.singleton_inj.1 he
    refine .inr ⟨⟨ys, response, zs, hxs, hc, hf, fun r hr => ?_⟩, fun r hr => ?_⟩
    · exact hlater r (List.mem_append_left _ hr)
    · exact hlater r (List.mem_append_right _ (by rw [← he', hr]; exact .head _))

/-! ## The map -/

section
variable {m : FiniteMap UInt32 UInt32} {cur c f : UInt32}

theorem relink_self (h : m c = none ∨ m c = some f) :
    ClientStatesWriter.relink cur c f m c = some f := by
  have hadd : ∀ m' : FiniteMap UInt32 UInt32, (m' c = none ∨ m' c = some f) →
      FiniteMap.addNode m' c f c = some f := by
    intro m' h'
    rcases h' with h' | h'
    · rw [FiniteMap.addNode_of_none h', if_pos rfl]
    · rw [FiniteMap.addNode_of_some h', h']
  refine hadd _ ?_
  by_cases hcur : cur = c
  · rw [if_neg (not_not_intro hcur)]
    exact h
  · rw [if_pos hcur]
    refine .inr (hadd _ ?_)
    rw [show ClientFdMap.deleteNode m cur c = m c from FiniteMap.deleteNode_other m (Ne.symm hcur)]
    exact h

theorem relink_other {k : UInt32} (hc : k ≠ c) (hcur : k ≠ cur) :
    ClientStatesWriter.relink cur c f m k = m k := by
  have hadd : ∀ m' : FiniteMap UInt32 UInt32, FiniteMap.addNode m' c f k = m' k :=
    fun m' => FiniteMap.addNode_other m' f hc
  refine (hadd _).trans ?_
  split
  · exact (hadd _).trans (FiniteMap.deleteNode_other m hcur)
  · rfl

end

/-! ## Runs -/

section
variable {w : Writer} {memory : Nat → OrderStateReport} {events : List RoutingEvent}

/-- Every client is found on the descriptor of its last login. -/
structure Routed (events : List RoutingEvent) (w : Writer) : Prop where
  settled : w.states.Settled
  found : ∀ c f, LoggedInOn events c f → w.clientsFd c = some f

theorem Routed.login {xs : List RoutingEvent} (h : Routed xs w) {response : ClientAccountSnapshot}
    (hcur : Current w (.login response)) (hex : Exclusive w (.login response)) :
    Routed (xs ++ [.login response]) (w.handleResponse response) := by
  rcases w.handleResponse_cases response with ⟨hstale, -⟩ | ⟨-, r, hid, hfd, -, heq⟩
  · have hfresh : w.stale response = false := hcur
    rw [hstale] at hfresh
    cases hfresh
  · rw [heq]
    refine ⟨ClientStatesWriter.install_settled h.settled r, fun c f hlog => ?_⟩
    show ClientStatesWriter.relink (w.states.getClientId r.clientFd) r.clientId r.clientFd
      w.clientsFd c = some f
    rw [hid, hfd]
    rcases loggedInOn_snoc hlog with ⟨r', hr', rfl, rfl⟩ | ⟨hlog, hother⟩
    · cases hr'
      exact relink_self (hex _ (.head _))
    · obtain ⟨hc, hf⟩ := hother response rfl
      have hm := h.found c f hlog
      -- the client is not the one whose entry is deleted: that entry would be for another
      -- descriptor
      have hne : c ≠ w.states.getClientId response.clientFd := by
        intro heq
        rcases hex _ (.tail _ (.head _)) with hnone | hsome
        · rw [← heq, hm] at hnone
          cases hnone
        · rw [← heq, hm, Option.some.injEq] at hsome
          exact hf hsome.symm
      rw [relink_other (Ne.symm hc) hne]
      exact hm

theorem Routed.step {xs : List RoutingEvent} (h : Routed xs w) {e : RoutingEvent}
    (hcur : Current w e) (hex : Exclusive w e) : Routed (xs ++ [e]) (step w e) := by
  cases e with
  | login response => exact h.login hcur hex
  | disconnect fd =>
    refine ⟨ClientStatesWriter.handleDisconnect_settled h.settled fd, fun c f hlog => ?_⟩
    rcases loggedInOn_snoc hlog with ⟨r, hr, -⟩ | ⟨hlog, -⟩
    · cases hr
    · exact h.found c f hlog
  | reports batch =>
    obtain ⟨hm, hset, -⟩ := ClientStatesWriter.handleReports_spec h.settled batch
    refine ⟨hset, fun c f hlog => ?_⟩
    rcases loggedInOn_snoc hlog with ⟨r, hr, -⟩ | ⟨hlog, -⟩
    · cases hr
    · show (w.handleReports batch).clientsFd c = some f
      rw [hm]
      exact h.found c f hlog

theorem routed_run (hcur : Through Current step (.new memory) events)
    (hex : Through Exclusive step (.new memory) events) :
    Routed events (events.foldl step (.new memory)) := by
  have hboth : Through (fun w e => Current w e ∧ Exclusive w e) step (.new memory) events :=
    fun xs e hx => ⟨hcur xs e hx, hex xs e hx⟩
  refine foldl_invariant (P := Routed) ⟨ClientStates.new_settled, fun c f hlog => ?_⟩ hboth
    fun xs e w h hpre => h.step hpre.1 hpre.2
  obtain ⟨xs, r, ys, heq, -⟩ := hlog
  simp at heq

/-- A report for a client that is found on `f`: its two legs are applied to `f` and published there.
-/
theorem handleReports_found {r : OrderStateReport} {f : UInt32}
    (h : w.clientsFd r.clientId = some f) : (w.handleReports [r]).states =
      (((w.states.setClientAssets f r.boughtDelta 0 r.boughtAssetId).setClientAssets f r.soldDelta
        (if r.state = .add then 0 else r.soldAttemptDelta) r.soldAssetId).flushTripleBuffer f) := by
  have hget : ClientFdMap.getVal w.clientsFd r.clientId = some f := h
  simp only [ClientStatesWriter.handleReports, List.foldl_cons, List.foldl_nil,
    ClientStatesWriter.applyReport_clientsFd, List.filterMap_cons, List.filterMap_nil, hget,
    flushTouched, List.not_mem_nil, if_false]
  simp only [ClientStatesWriter.flush, ClientStatesWriter.applyReport, hget]

/-- **Trade reports reach the current connection.** A client that logged in on `f`, which nobody has
taken over since, is found there; the next report for it changes the state of `f` and no other; and
a login leaves the other clients' entries alone. -/
theorem run_routes (hcur : Through Current step (.new memory) events)
    (hex : Through Exclusive step (.new memory) events) :
    let w := events.foldl step (.new memory)
    (∀ c f, LoggedInOn events c f → w.clientsFd c = some f ∧ ∀ r : OrderStateReport,
      r.clientId = c → (w.handleReports [r]).states =
        (((w.states.setClientAssets f r.boughtDelta 0 r.boughtAssetId).setClientAssets f r.soldDelta
          (if r.state = .add then 0 else r.soldAttemptDelta) r.soldAssetId).flushTripleBuffer f) ∧
      ∀ f', f' ≠ f → (w.handleReports [r]).states f' = w.states f') ∧
    ∀ xs response, xs ++ [.login response] <+: events → ∀ c f, LoggedInOn xs c f →
      c ≠ response.clientId → f ≠ response.clientFd →
      ((xs.foldl step (.new memory)).handleResponse response).clientsFd c =
        (xs.foldl step (.new memory)).clientsFd c := by
  refine ⟨fun c f hlog => ?_, fun xs response hx c f hlog hc hf => ?_⟩
  · have hfound := (routed_run hcur hex).found c f hlog
    refine ⟨hfound, fun r hr => ?_⟩
    have hstates := handleReports_found (r := r) (by rw [hr]; exact hfound)
    refine ⟨hstates, fun f' hf' => ?_⟩
    rw [hstates]
    simp only [ClientStates.flushTripleBuffer, ClientStates.setClientAssets,
      Function.update_of_ne hf']
  · have hbefore := routed_run (hcur.restrict ((List.prefix_append _ _).trans hx))
      (hex.restrict ((List.prefix_append _ _).trans hx))
    have hafter := hbefore.login (hcur xs _ hx) (hex xs _ hx)
    rw [hbefore.found c f hlog]
    refine hafter.found c f ?_
    obtain ⟨ys, r, zs, rfl, hrc, hrf, hlater⟩ := hlog
    refine ⟨ys, r, zs ++ [.login response], by simp, hrc, hrf, fun r' hr' => ?_⟩
    rcases List.mem_append.1 hr' with hr' | hr'
    · exact hlater r' hr'
    · rw [List.mem_singleton, RoutingEvent.login.injEq] at hr'
      rw [hr']
      exact ⟨Ne.symm hc, Ne.symm hf⟩

end

/-! ## Two clients and two descriptors -/

def sampleLoginOn (c f : UInt32) : RoutingEvent := .login ⟨0, .accepted, 0, c, f, fun _ => 0⟩

def blankReport : OrderStateReport := ⟨0, 0, 0, 0, 0, 0, 0, 0, 0, .add⟩

/-- Client 9 gets the descriptor that client 7 has left. -/
def sampleRoutes : List RoutingEvent :=
  [sampleLoginOn 7 5, sampleLoginOn 8 6, .disconnect 5, sampleLoginOn 9 5]

theorem run_routes_sample :
    (sampleRoutes.foldl step (.new fun _ => blankReport)).clientsFd 8 = some 6 ∧
      (sampleRoutes.foldl step (.new fun _ => blankReport)).clientsFd 9 = some 5 := by
  have hcur : Through Current step (.new fun _ => blankReport) sampleRoutes := by decide +kernel
  have hex : Through Exclusive step (.new fun _ => blankReport) sampleRoutes := by decide +kernel
  have h := (run_routes hcur hex).1
  refine ⟨(h 8 6 ⟨[sampleLoginOn 7 5], _, [.disconnect 5, sampleLoginOn 9 5], rfl, rfl, rfl, ?_⟩).1,
    (h 9 5 ⟨[sampleLoginOn 7 5, sampleLoginOn 8 6, .disconnect 5], _, [], rfl, rfl, rfl, ?_⟩).1⟩
  · intro r hr
    rw [List.mem_cons, List.mem_singleton] at hr
    rcases hr with hr | hr
    · cases hr
    · rw [sampleLoginOn, RoutingEvent.login.injEq] at hr
      rw [hr]
      decide
  · intro r hr
    cases hr

/-- Client 7 comes back on another descriptor. -/
def returningClient : List RoutingEvent := [sampleLoginOn 7 5, .disconnect 5, sampleLoginOn 7 6]

/-- Client 0 logs in, whose id a fresh descriptor has. -/
def freshDescriptor : List RoutingEvent := [sampleLoginOn 0 5, sampleLoginOn 7 6]

/-- Client 7 comes back on descriptor 6 and is still looked for on 5; and a login of client 7 on a
fresh descriptor removes client 0. All responses are current. -/
theorem relogin_misroutes :
    (Through Current step (.new fun _ => blankReport) returningClient ∧
      LoggedInOn returningClient 7 6 ∧
      (returningClient.foldl step (.new fun _ => blankReport)).clientsFd 7 = some 5) ∧
    (Through Current step (.new fun _ => blankReport) freshDescriptor ∧
      LoggedInOn freshDescriptor 0 5 ∧
      (freshDescriptor.foldl step (.new fun _ => blankReport)).clientsFd 0 = none) := by
  refine ⟨⟨by decide +kernel, ⟨[sampleLoginOn 7 5, .disconnect 5], _, [], rfl, rfl, rfl, ?_⟩,
    by decide +kernel⟩, ⟨by decide +kernel, ⟨[], _, [sampleLoginOn 7 6], rfl, rfl, rfl, ?_⟩,
    by decide +kernel⟩⟩
  · intro r hr
    cases hr
  · intro r hr
    rw [List.mem_singleton, sampleLoginOn, RoutingEvent.login.injEq] at hr
    rw [hr]
    decide

end Writer

end Naoto.Gateway
