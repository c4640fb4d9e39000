import Mathlib.Data.List.TakeWhile
import Rapp.Routing

/-!
# Bindings and failed allocations

`http_router_bind` with what `memory_create` answers for a new pack and
`memory_strdup` for a copy of a long route. Neither answer is looked at. A
binding whose `route` is NULL is never matched, as long as its route is counted.
-/
namespace Rapp

open CallOutcome (Outcome run)
open ByteBlock

variable {κ : Type}

/-- The container of a binding, and whether its `route` is NULL. -/
structure BoundContainer (κ : Type) where
  container : κ
  routeNull : Bool
  deriving DecidableEq

/-- A route that does not fit into `name` is copied. -/
def isCopied (route : Bytes) : Bool := routeBaseLen ≤ (RouteBinding.bound route ()).routeLen

/-- The loop of `strmatch`, which stops at a NULL pointer. -/
def strmatchRoute (url : Bytes) (binding : RouteBinding (BoundContainer κ)) (n : Int) :
    Except RouterFault Nat :=
  if binding.container.routeNull then
    if n = intMin then .error .intOverflow else .ok 0
  else strmatch url binding.memory n

/-- The loop over the bindings of a pack; the flag is `found`. -/
def scanBoundBindings (mode : RouteMatchMode) (url : Bytes) (n : Int) :
    List (RouteBinding (BoundContainer κ)) → κ → Except RouterFault (κ × Bool)
  | [], candidate => .ok (candidate, false)
  | binding :: bindings, candidate =>
    match strmatchRoute url binding n with
    | .error why => .error why
    | .ok current =>
      if binding.routeLen ≤ current then
        match mode with
        | .first => .ok (binding.container.container, true)
        | .longest => scanBoundBindings mode url n bindings binding.container.container
      else scanBoundBindings mode url n bindings candidate

/-- The loop over the packs. -/
def scanBoundPacks (mode : RouteMatchMode) (url : Bytes) (n : Int) :
    List (RoutePack (BoundContainer κ)) → κ → Except RouterFault κ
  | [], candidate => .ok candidate
  | pack :: packs, candidate =>
    match scanBoundBindings mode url n pack.bindings candidate with
    | .error why => .error why
    | .ok (candidate, found) =>
      if found then .ok candidate else scanBoundPacks mode url n packs candidate

/-- A router whose bindings may have lost their routes. -/
abbrev FallibleRouter (κ : Type) := HTTPRouter (BoundContainer κ)

/-- What is left of a binding that has its route. -/
def RouteBinding.live (binding : RouteBinding (BoundContainer κ)) : Option (RouteBinding κ) :=
  if binding.container.routeNull then none
  else some { binding with container := binding.container.container }

def RouteBinding.entry (binding : RouteBinding κ) : Bytes × κ :=
  (binding.memory.take binding.routeLen.toNat, binding.container)

namespace FallibleRouter

def new (null : κ) (mode : RouteMatchMode) : FallibleRouter κ := HTTPRouter.new ⟨null, false⟩ mode

def lastFull (router : FallibleRouter κ) : Bool :=
  (router.packs[router.last]?).any fun pack => pack.bindings.length = routeGroupLen

/-- `created` and `copied` are the answers for a new pack and for a copy of the
route. A pack that could not be created fails the assertion of `route_pack_bind`. -/
def bind (router : FallibleRouter κ) (route : Bytes) (container : κ) (created copied : Bool) :
    Outcome RouterFault (FallibleRouter κ) :=
  if (cString route).length ≤ routeMaxLen ∧ router.lastFull ∧ !created then
    .undefined .danglingPack
  else HTTPRouter.bind router route ⟨container, isCopied route && !copied⟩

/-- The container that `http_router_serve` finds behind the default one. -/
def route (router : FallibleRouter κ) (request : HTTPRequest) : Except RouterFault κ :=
  scanBoundPacks router.matchMode
    ((request.headersBuffer.getD []).drop request.urlRange.offset)
    ((request.urlRange.length : Int).bmod (2 ^ 32)) router.packs router.null.container

/-- The routes that can be found and their containers, in order. -/
def table (router : FallibleRouter κ) : List (Bytes × κ) :=
  ((router.packs.flatMap RoutePack.bindings).filterMap RouteBinding.live).map RouteBinding.entry

/-- Memory that the call needs is not there. -/
def Unallocated (router : FallibleRouter κ) (route : Bytes) (created copied : Bool) : Prop :=
  (cString route).length ≤ routeMaxLen ∧
    ((router.lastFull = true ∧ created = false) ∨
      (routeBaseLen ≤ (cString route).length ∧ copied = false))

/-- A bind that returns 0 is effective, and one that cannot get its memory
returns something else and is harmless. -/
structure BindsOrRefuses (router : FallibleRouter κ) (route : Bytes) (container : κ)
    (created copied : Bool) : Prop where
  appended : ∀ after, router.bind route container created copied = .ok after →
    after.table = router.table ++ [(cString route, container)]
  found : ∀ after, router.bind route container created copied = .ok after →
    ∀ request : HTTPRequest, request.HasUrl (cString route) →
      (∀ entry ∈ router.table, ¬ entry.1 <+: cString route) →
      after.route request = .ok container
  harmless : ∀ after, router.bind route container created copied = .failed after →
    ∀ request, after.route request = router.route request
  refused : router.Unallocated route created copied →
    ∃ after, router.bind route container created copied = .failed after

end FallibleRouter

/-- The calls that set up a router. -/
inductive FallibleRouterOp (κ : Type) where
  | bind (route : Bytes) (container : κ) (created copied : Bool)
  | setDefaultContainer (container : κ)

/-- A caller goes on when a binding is refused. -/
def FallibleRouterOp.apply :
    FallibleRouterOp κ → FallibleRouter κ → Outcome RouterFault (FallibleRouter κ)
  | .bind route container created copied, router =>
    (FallibleRouter.bind router route container created copied).recover id
  | .setDefaultContainer container, router =>
    .ok (router.setDefaultContainer ⟨container, false⟩)

/-! ### Bindings without a route -/

theorem isCopied_iff {route : Bytes} (h : (cString route).length ≤ routeMaxLen) :
    isCopied route = true ↔ routeBaseLen ≤ (cString route).length := by
  rw [isCopied, decide_eq_true_eq, (stores_bound h ()).routeLen_eq]
  exact Int.ofNat_le

/-- Bindings without a route are passed over like bindings that are not there. -/
theorem scanBoundBindings_eq {mode : RouteMatchMode} {url : Bytes} {n : Int} (hn : n ≠ intMin)
    {bindings : List (RouteBinding (BoundContainer κ))}
    (hnull : ∀ b ∈ bindings, b.container.routeNull = true → 0 < b.routeLen) (candidate : κ) :
    scanBoundBindings mode url n bindings candidate =
      scanBindings mode url n (bindings.filterMap RouteBinding.live) candidate := by
  induction bindings generalizing candidate with
  | nil => rfl
  | cons binding bindings ih =>
    have hrest := ih fun b hb => hnull b (List.mem_cons_of_mem _ hb)
    cases hroute : binding.container.routeNull with
    | true =>
      have hlen := hnull binding List.mem_cons_self hroute
      have hskip : ¬ binding.routeLen ≤ ((0 : Nat) : Int) := by omega
      have hlive : binding.live = none := by rw [RouteBinding.live, hroute, if_pos rfl]
      rw [List.filterMap_cons_none hlive, ← hrest]
      simp only [scanBoundBindings, strmatchRoute, hroute, if_true, if_neg hn, if_neg hskip]
    | false =>
      have hlive : binding.live =
          some { binding with container := binding.container.container } := by
        rw [RouteBinding.live, hroute]
        rfl
      rw [List.filterMap_cons_some hlive]
      simp only [scanBoundBindings, strmatchRoute, hroute, Bool.false_eq_true, if_false, hrest,
        scanBindings]
      rfl

/-- A pack without the bindings that have no route. -/
def RoutePack.live (pack : RoutePack (BoundContainer κ)) : RoutePack κ :=
  ⟨pack.bindings.filterMap RouteBinding.live,
    (List.length_filterMap_le _ _).trans pack.bindingNum_le⟩

theorem scanBoundPacks_eq {mode : RouteMatchMode} {url : Bytes} {n : Int} (hn : n ≠ intMin)
    {packs : List (RoutePack (BoundContainer κ))}
    (hnull : ∀ b ∈ packs.flatMap RoutePack.bindings, b.container.routeNull = true →
      0 < b.routeLen) (candidate : κ) :
    scanBoundPacks mode url n packs candidate =
      scanPacks mode url n (packs.map RoutePack.live) candidate := by
  induction packs generalizing candidate with
  | nil => rfl
  | cons pack packs ih =>
    simp only [List.flatMap_cons, List.mem_append, or_imp, forall_and] at hnull
    simp only [scanBoundPacks, List.map_cons, scanPacks, scanBoundBindings_eq hn hnull.1,
      ih hnull.2]
    rfl

/-- A stored entry whose binding has its route. -/
def liveEntry (entry : Bytes × BoundContainer κ) : Option (Bytes × κ) :=
  if entry.2.routeNull then none else some (entry.1, entry.2.container)

theorem stores_live {bindings : List (RouteBinding (BoundContainer κ))}
    {bound : List (Bytes × BoundContainer κ)} (h : List.Forall₂ Stores bindings bound) :
    List.Forall₂ Stores (bindings.filterMap RouteBinding.live) (bound.filterMap liveEntry) := by
  induction h with
  | nil => exact .nil
  | @cons binding entry bindings bound hstores _ ih =>
    have hsame : entry.2.routeNull = binding.container.routeNull := by rw [hstores.container_eq]
    cases hroute : binding.container.routeNull with
    | true =>
      rw [List.filterMap_cons_none (by rw [RouteBinding.live, hroute, if_pos rfl]),
        List.filterMap_cons_none (by rw [liveEntry, hsame, hroute, if_pos rfl])]
      exact ih
    | false =>
      rw [List.filterMap_cons_some (by rw [RouteBinding.live, hroute]; rfl),
        List.filterMap_cons_some (by rw [liveEntry, hsame, hroute]; rfl)]
      refine .cons ⟨?_, hstores.routeLen_eq, hstores.memory_eq⟩ ih
      rw [hstores.container_eq]

theorem Stores.entry_eq {binding : RouteBinding κ} {entry : Bytes × κ} (h : Stores binding entry) :
    binding.entry = entry := by
  obtain ⟨pad, hmemory⟩ := h.memory_eq
  rw [RouteBinding.entry, hmemory, h.routeLen_eq, Int.toNat_natCast, List.take_left,
    h.container_eq]

theorem map_entry {bindings : List (RouteBinding κ)} {bound : List (Bytes × κ)}
    (h : List.Forall₂ Stores bindings bound) : bindings.map RouteBinding.entry = bound := by
  induction h with
  | nil => rfl
  | cons hstores _ ih => rw [List.map_cons, hstores.entry_eq, ih]

theorem stored_of_mem {bindings : List (RouteBinding κ)} {bound : List (Bytes × κ)}
    (h : List.Forall₂ Stores bindings bound) {binding : RouteBinding κ} (hb : binding ∈ bindings) :
    ∃ entry ∈ bound, Stores binding entry := by
  induction h with
  | nil => simp at hb
  | @cons other entry bindings bound hstores _ ih =>
    rcases List.mem_cons.mp hb with rfl | hmem
    · exact ⟨entry, List.mem_cons_self, hstores⟩
    · obtain ⟨entry', hentry', hstores'⟩ := ih hmem
      exact ⟨entry', List.mem_cons_of_mem _ hentry', hstores'⟩

namespace FallibleRouter

/-- The bindings are stored, and those without a route are of a length. -/
structure Kept (router : FallibleRouter κ) (bound : List (Bytes × BoundContainer κ)) : Prop where
  represents : Represents router bound
  counted : ∀ entry ∈ bound, entry.2.routeNull = true → 0 < entry.1.length

theorem Kept.table_eq {router : FallibleRouter κ} {bound : List (Bytes × BoundContainer κ)}
    (h : router.Kept bound) : router.table = bound.filterMap liveEntry :=
  map_entry (stores_live h.represents.stored)

/-- The table decides where a request goes. -/
theorem Kept.route_eq {router : FallibleRouter κ} {bound : List (Bytes × BoundContainer κ)}
    (h : router.Kept bound) {request : HTTPRequest} {url : Bytes} (hurl : request.HasUrl url)
    (hnul : 0 ∉ url) (hint : (url.length : Int) ≤ intMax) :
    router.route request = .ok (match router.matchMode with
      | .first => earliest router.null.container router.table url
      | .longest => latest router.null.container router.table url) := by
  have hstored := stores_live h.represents.stored
  have hlength : (request.urlRange.length : Int).bmod (2 ^ 32) = url.length := by
    rw [hurl.memory.1]
    exact bmod_length hint
  have hn : (request.urlRange.length : Int).bmod (2 ^ 32) ≠ intMin := by
    have hneg : intMin < 0 := by decide
    omega
  have hnull : ∀ b ∈ router.packs.flatMap RoutePack.bindings, b.container.routeNull = true →
      0 < b.routeLen := by
    intro b hb hroute
    obtain ⟨entry, hentry, hstores⟩ := stored_of_mem h.represents.stored hb
    rw [hstores.routeLen_eq]
    have hpositive := h.counted entry hentry (by rw [← hstores.container_eq]; exact hroute)
    omega
  let live : HTTPRouter κ := {
    packs := router.packs.map RoutePack.live
    last := router.last
    null := router.null.container
    starter := none
    matchMode := router.matchMode }
  have hlive : router.route request = live.route request := scanBoundPacks_eq hn hnull _
  have hbindings : live.packs.flatMap RoutePack.bindings =
      (router.packs.flatMap RoutePack.bindings).filterMap RouteBinding.live := by
    simp only [live, List.flatMap_map, List.filterMap_flatMap]
    rfl
  have hroute := HTTPRouter.route_eq_of_stored (hbindings ▸ hstored) hurl hnul hint
  rw [← h.table_eq] at hroute
  exact hlive.trans hroute

/-! ### One call -/

theorem kept_new (null : κ) (mode : RouteMatchMode) : (new null mode).Kept [] :=
  ⟨represents_new _ _, by simp⟩

/-- A route that is too long is refused before anything is asked for. -/
theorem bind_tooLong (router : FallibleRouter κ) {route : Bytes}
    (hlong : routeMaxLen < (cString route).length) (container : κ) (created copied : Bool) :
    FallibleRouter.bind router route container created copied = .failed router := by
  rw [FallibleRouter.bind, if_neg (by omega), HTTPRouter.bind, if_pos hlong]

theorem bind_dangling {router : FallibleRouter κ} {route : Bytes}
    (hroute : (cString route).length ≤ routeMaxLen) (hfull : router.lastFull = true)
    (container : κ) (copied : Bool) :
    FallibleRouter.bind router route container false copied = .undefined .danglingPack := by
  rw [FallibleRouter.bind, if_pos ⟨hroute, hfull, rfl⟩]

/-- A call that goes through stores its route, without it when the copy failed. -/
theorem Kept.bind {router : FallibleRouter κ} {bound : List (Bytes × BoundContainer κ)}
    (h : router.Kept bound) {route : Bytes} (hroute : (cString route).length ≤ routeMaxLen)
    (container : κ) {created : Bool} (hcreated : router.lastFull = true → created = true)
    (copied : Bool) :
    ∃ after, FallibleRouter.bind router route container created copied = .ok after ∧
      after.matchMode = router.matchMode ∧ after.null = router.null ∧
      after.Kept (bound ++ [(cString route, ⟨container, isCopied route && !copied⟩)]) := by
  have hnot : ¬ ((cString route).length ≤ routeMaxLen ∧ router.lastFull ∧ !created) := by
    rintro ⟨-, hfull, hmissing⟩
    rw [hcreated hfull] at hmissing
    cases hmissing
  obtain ⟨packs, last, hbind, hrepresents⟩ :=
    h.represents.bind hroute ⟨container, isCopied route && !copied⟩
  refine ⟨{ router with packs := packs, last := last }, ?_, rfl, rfl, hrepresents, ?_⟩
  · rw [FallibleRouter.bind, if_neg hnot]
    exact hbind
  · intro entry hentry hnull
    rcases List.mem_append.mp hentry with hold | hnew
    · exact h.counted entry hold hnull
    · obtain rfl := List.mem_singleton.mp hnew
      simp only [Bool.and_eq_true] at hnull
      have hcopied := (isCopied_iff hroute).mp hnull.1
      simp only [routeBaseLen] at hcopied
      change 0 < (cString route).length
      omega

theorem cString_nul (route : Bytes) : 0 ∉ cString route := by
  intro hmem
  simpa using List.mem_takeWhile_imp hmem

/-- The new entry is found behind entries that are no prefixes of its route. -/
theorem Kept.route_new {router : FallibleRouter κ} {bound : List (Bytes × BoundContainer κ)}
    (h : router.Kept bound) {table : List (Bytes × κ)} {route : Bytes} {container : κ}
    (htable : router.table = table ++ [(cString route, container)])
    (hroute : (cString route).length ≤ routeMaxLen) {request : HTTPRequest}
    (hurl : request.HasUrl (cString route))
    (hearlier : ∀ entry ∈ table, ¬ entry.1 <+: cString route) :
    router.route request = .ok container := by
  have hint : ((cString route).length : Int) ≤ intMax := by
    have hmax : ((routeMaxLen : Nat) : Int) ≤ intMax := by decide
    omega
  have hself : matchesUrl (cString route) (cString route, container) = true :=
    matchesUrl_iff.mpr List.prefix_rfl
  rw [h.route_eq hurl (cString_nul route) hint, htable]
  cases router.matchMode with
  | first =>
    have hnone : table.find? (matchesUrl (cString route)) = none := by
      refine List.find?_eq_none.mpr fun entry hentry hmatch => ?_
      exact hearlier entry hentry (matchesUrl_iff.mp hmatch)
    simp [earliest, hnone, hself]
  | longest => simp [latest, List.filter_append, hself]

theorem Kept.bindsOrRefuses_iff {router : FallibleRouter κ}
    {bound : List (Bytes × BoundContainer κ)} (h : router.Kept bound) (route : Bytes)
    (container : κ) (created copied : Bool) :
    router.BindsOrRefuses route container created copied ↔
      routeMaxLen < (cString route).length ∨
        ((router.lastFull = true → created = true) ∧
          (routeBaseLen ≤ (cString route).length → copied = true)) := by
  by_cases hlong : routeMaxLen < (cString route).length
  · have hcall := bind_tooLong router hlong container created copied
    refine iff_of_true ⟨?_, ?_, ?_, ?_⟩ (.inl hlong)
    · simp [hcall]
    · simp [hcall]
    · rw [hcall]
      rintro after ⟨⟩ request
      rfl
    · exact fun hunallocated => absurd hunallocated.1 (by omega)
  have hroute : (cString route).length ≤ routeMaxLen := by omega
  rw [or_iff_right hlong]
  by_cases hcreated : router.lastFull = true → created = true
  swap
  · -- The assertion on the new pack fails.
    refine iff_of_false (fun hbinds => ?_) (fun hall => hcreated hall.1)
    push Not at hcreated
    obtain ⟨hfull, hnot⟩ := hcreated
    obtain rfl : created = false := by simpa using hnot
    obtain ⟨after, hafter⟩ := hbinds.refused ⟨hroute, .inl ⟨hfull, rfl⟩⟩
    rw [bind_dangling hroute hfull] at hafter
    cases hafter
  obtain ⟨after, hafter, -, -, hkept⟩ := h.bind hroute container hcreated copied
  rw [and_iff_right hcreated]
  constructor
  · -- Without its copy the binding is made all the same.
    intro hbinds hlength
    by_contra hcopied
    obtain ⟨other, hother⟩ := hbinds.refused
      ⟨hroute, .inr ⟨hlength, by simpa using hcopied⟩⟩
    rw [hafter] at hother
    cases hother
  · intro hcopied
    have hstored : (isCopied route && !copied) = false := by
      by_cases hlength : routeBaseLen ≤ (cString route).length
      · simp [hcopied hlength]
      · have hfits : isCopied route = false := by
          rw [Bool.eq_false_iff]
          exact fun htrue => hlength ((isCopied_iff hroute).mp htrue)
        simp [hfits]
    have htable : after.table = router.table ++ [(cString route, container)] := by
      rw [hkept.table_eq, h.table_eq, List.filterMap_append, hstored]
      rfl
    refine ⟨?_, ?_, ?_, ?_⟩
    · rw [hafter]
      rintro _ ⟨⟩
      exact htable
    · rw [hafter]
      rintro _ ⟨⟩ request hurl hearlier
      exact hkept.route_new htable hroute hurl hearlier
    · simp [hafter]
    · rintro ⟨-, ⟨hfull, hmissing⟩ | ⟨hlength, hmissing⟩⟩
      · rw [hcreated hfull] at hmissing
        cases hmissing
      · rw [hcopied hlength] at hmissing
        cases hmissing

/-! ### Any calls -/

theorem Kept.apply {router next : FallibleRouter κ} (h : ∃ bound, router.Kept bound)
    {op : FallibleRouterOp κ} (hop : op.apply router = .ok next) : ∃ bound, next.Kept bound := by
  obtain ⟨bound, hkept⟩ := h
  cases op with
  | setDefaultContainer container =>
    cases hop
    refine ⟨bound, ⟨?_, ?_, ?_⟩, hkept.counted⟩
    · exact hkept.represents.last_eq
    · exact hkept.represents.full
    · exact hkept.represents.stored
  | bind route container created copied =>
    by_cases hlong : routeMaxLen < (cString route).length
    · rw [FallibleRouterOp.apply, bind_tooLong router hlong] at hop
      cases hop
      exact ⟨bound, hkept⟩
    · by_cases hcreated : router.lastFull = true → created = true
      · obtain ⟨after, hafter, -, -, hkept'⟩ :=
          hkept.bind (Nat.le_of_not_lt hlong) container hcreated copied
        rw [FallibleRouterOp.apply, hafter] at hop
        cases hop
        exact ⟨_, hkept'⟩
      · push Not at hcreated
        obtain ⟨hfull, hnot⟩ := hcreated
        obtain rfl : created = false := by simpa using hnot
        rw [FallibleRouterOp.apply, bind_dangling (Nat.le_of_not_lt hlong) hfull] at hop
        cases hop

theorem kept_run {null : κ} {mode : RouteMatchMode} {ops : List (FallibleRouterOp κ)}
    {router : FallibleRouter κ} (h : run FallibleRouterOp.apply ops (new null mode) = .ok router) :
    ∃ bound, router.Kept bound :=
  CallOutcome.run_history FallibleRouterOp.apply (I := fun _ router => ∃ bound, router.Kept bound)
    ⟨[], kept_new null mode⟩ (fun _ _ _ _ hkept hop => Kept.apply hkept hop) h

/-- After any calls with any answers: a bind is effective when it returns 0 and
harmless when it does not, exactly when every allocation it asks for succeeds. -/
theorem bind_bindsOrRefuses_iff (null : κ) (mode : RouteMatchMode)
    (ops : List (FallibleRouterOp κ)) (router : FallibleRouter κ)
    (hrun : run FallibleRouterOp.apply ops (new null mode) = .ok router) (route : Bytes)
    (container : κ) (created copied : Bool) :
    router.BindsOrRefuses route container created copied ↔
      routeMaxLen < (cString route).length ∨
        ((router.lastFull = true → created = true) ∧
          (routeBaseLen ≤ (cString route).length → copied = true)) := by
  obtain ⟨bound, hkept⟩ := kept_run hrun
  exact hkept.bindsOrRefuses_iff route container created copied

/-- A route of 17 bytes, its copy allocated. -/
theorem bind_bindsOrRefuses_copied :
    run FallibleRouterOp.apply [] (new 0 .first) = .ok (new 0 .first) ∧
    ((new 0 .first).BindsOrRefuses (ascii "/static/documents") 1 false true ↔
      routeMaxLen < (cString (ascii "/static/documents")).length ∨
        ((lastFull (new 0 .first) = true → false = true) ∧
          (routeBaseLen ≤ (cString (ascii "/static/documents")).length → true = true))) :=
  ⟨rfl, bind_bindsOrRefuses_iff 0 .first [] (new 0 .first) rfl (ascii "/static/documents") 1 false
    true⟩

/-- Without memory for its copy the same route is bound to nothing, and the call returns 0. -/
theorem not_bind_bindsOrRefuses_notCopied :
    ¬ (new 0 .first).BindsOrRefuses (ascii "/static/documents") 1 true false ∧
      ∃ after, FallibleRouter.bind (new 0 .first) (ascii "/static/documents") 1 true false =
        .ok after ∧ after.table = [] := by
  have hlength : (cString (ascii "/static/documents")).length = 17 := by decide
  refine ⟨fun hbinds => ?_, _, rfl, by decide⟩
  obtain ⟨after, hafter⟩ := hbinds.refused
    ⟨by rw [hlength]; decide, .inr ⟨by rw [hlength]; decide, rfl⟩⟩
  cases hafter

end FallibleRouter

end Rapp
