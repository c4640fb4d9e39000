import Rapp.HttpRouter

/-!
# Which container serves a request

The packs hold the bindings in the order they were made, and the counted
comparison finds the routes that are prefixes of the URL. So the mode
`ROUTE_MATCH_FIRST` serves from the earliest such route; the mode
`ROUTE_MATCH_LONGEST` serves from the latest one, however long it is.
-/
namespace Rapp

open CallOutcome (Outcome run)
open ByteBlock

variable {κ σ : Type}

/-! ### The comparison -/

def matchesUrl (url : Bytes) (entry : Bytes × κ) : Bool := entry.1.isPrefixOf url

theorem matchesUrl_iff {url : Bytes} {entry : Bytes × κ} :
    matchesUrl url entry = true ↔ entry.1 <+: url := List.isPrefixOf_iff_prefix

/-- The bytes of the URL are counted, those of the route end with a NUL the URL does not have. -/
theorem strmatch_spec {url route : Bytes} (hnul : 0 ∉ url) (hint : (url.length : Int) ≤ intMax)
    (beyond pad : Bytes) :
    ∃ current, strmatch (url ++ beyond) (route ++ 0 :: pad) url.length = .ok current ∧
      (route.length ≤ current ↔ route <+: url) := by
  induction url generalizing route with
  | nil => exact ⟨0, strmatch_zero _ _, by simp [List.prefix_nil]⟩
  | cons byte url ih =>
    have hne : byte ≠ 0 := by
      rintro rfl
      simp at hnul
    have hcount : (((byte :: url).length : Nat) : Int) - 1 = url.length := by simp
    have hzero : (((byte :: url).length : Nat) : Int) ≠ 0 := by
      simp only [List.length_cons]
      omega
    have hmin : (((byte :: url).length : Nat) : Int) ≠ intMin := by
      have hneg : intMin < 0 := by decide
      omega
    cases route with
    | nil =>
      refine ⟨0, ?_, by simp⟩
      rw [List.cons_append, List.nil_append, strmatch_cons hzero hmin, if_neg hne]
    | cons other route =>
      rw [List.cons_append, List.cons_append, strmatch_cons hzero hmin, hcount]
      by_cases hsame : byte = other
      · subst hsame
        have hurl : 0 ∉ url := fun hmem => hnul (List.mem_cons_of_mem _ hmem)
        have hlength : (url.length : Int) ≤ intMax := by
          simp only [List.length_cons] at hint
          omega
        obtain ⟨current, hcurrent, hiff⟩ := ih hurl hlength
        refine ⟨current + 1, by rw [if_pos rfl, hcurrent]; rfl, ?_⟩
        simp [List.cons_prefix_cons, ← hiff]
      · refine ⟨0, by rw [if_neg hsame], ?_⟩
        have hother : ¬ other = byte := fun h => hsame h.symm
        simp [List.cons_prefix_cons, hother]

/-- A binding in memory and what it binds. -/
structure Stores (binding : RouteBinding κ) (entry : Bytes × κ) : Prop where
  container_eq : binding.container = entry.2
  routeLen_eq : binding.routeLen = entry.1.length
  memory_eq : ∃ pad, binding.memory = entry.1 ++ 0 :: pad

theorem stores_bound {route : Bytes} (h : (cString route).length ≤ routeMaxLen) (container : κ) :
    Stores (.bound route container) (cString route, container) := by
  have hlen : ((cString route).length : Int).bmod (2 ^ 16) = (cString route).length := by
    simp only [routeMaxLen] at h
    rw [Int.bmod_eq_of_le] <;> omega
  unfold RouteBinding.bound
  simp only [hlen]
  split
  · refine ⟨rfl, rfl, ?_⟩
    simp only [RouteBinding.memory, overwrite, List.take_zero, List.nil_append, List.append_assoc,
      List.singleton_append]
    exact ⟨_, rfl⟩
  · exact ⟨rfl, rfl, [], rfl⟩

/-! ### The packs -/

/-- The routers that hold these bindings, in this order. -/
structure Represents (router : HTTPRouter κ) (bound : List (Bytes × κ)) : Prop where
  last_eq : router.last + 1 = router.packs.length
  full : ∀ pack ∈ router.packs.dropLast, pack.bindings.length = routeGroupLen
  stored : List.Forall₂ Stores (router.packs.flatMap RoutePack.bindings) bound

theorem represents_new (null : κ) (mode : RouteMatchMode) :
    Represents (HTTPRouter.new null mode) [] where
  last_eq := rfl
  full := by simp [HTTPRouter.new]
  stored := .nil

/-- The new binding comes behind all others. -/
theorem routePackBind_last {packs : List (RoutePack κ)} {pack : RoutePack κ} (route : Bytes)
    (container : κ) (hfull : ∀ p ∈ packs, p.bindings.length = routeGroupLen) :
    ∃ new last, routePackBind (packs ++ [pack]) packs.length route container = some (new, last) ∧
      last + 1 = new.length ∧ (∀ p ∈ new.dropLast, p.bindings.length = routeGroupLen) ∧
      new.flatMap RoutePack.bindings =
        (packs ++ [pack]).flatMap RoutePack.bindings ++ [.bound route container] := by
  have hget : (packs ++ [pack])[packs.length]? = some pack := by simp
  rw [routePackBind, hget]
  by_cases hpack : pack.bindings.length = routeGroupLen
  · have htake : (packs ++ [pack]).take (packs.length + 1) = packs ++ [pack] :=
      List.take_of_length_le (by simp)
    simp only [dif_pos hpack, htake]
    refine ⟨_, _, rfl, by simp, ?_, by simp [RoutePack.add, RoutePack.empty]⟩
    rw [List.dropLast_concat]
    intro p hp
    rcases List.mem_append.mp hp with hmem | hmem
    · exact hfull p hmem
    · rw [List.mem_singleton.mp hmem]
      exact hpack
  · simp only [dif_neg hpack]
    refine ⟨_, _, rfl, by simp, ?_, by simp [RoutePack.add]⟩
    simpa using hfull

theorem Represents.bind {router : HTTPRouter κ} {bound : List (Bytes × κ)}
    (h : Represents router bound) {route : Bytes} (hroute : (cString route).length ≤ routeMaxLen)
    (container : κ) : ∃ packs last,
      router.bind route container = .ok { router with packs := packs, last := last } ∧
      Represents { router with packs := packs, last := last }
        (bound ++ [(cString route, container)]) := by
  rcases router.packs.eq_nil_or_concat with hnil | ⟨front, pack, hpacks⟩
  · have := h.last_eq
    simp [hnil] at this
  rw [List.concat_eq_append] at hpacks
  have hlast : router.last = front.length := by
    have := h.last_eq
    rw [hpacks, List.length_append, List.length_singleton] at this
    omega
  have hfull : ∀ p ∈ front, p.bindings.length = routeGroupLen := by
    simpa [hpacks] using h.full
  obtain ⟨packs, last, hbind, hlength, hdrop, hbindings⟩ :=
    routePackBind_last route container hfull
  refine ⟨packs, last, ?_, hlength, hdrop, ?_⟩
  · rw [HTTPRouter.bind, if_neg (by omega), hpacks, hlast, hbind]
  · rw [hbindings, ← hpacks]
    exact List.rel_append h.stored (.cons (stores_bound hroute container) .nil)

/-! ### The scan -/

theorem scanBindings_append (mode : RouteMatchMode) (url : Bytes) (n : Int)
    (first second : List (RouteBinding κ)) (candidate : κ) :
    scanBindings mode url n (first ++ second) candidate =
      match scanBindings mode url n first candidate with
      | .error why => .error why
      | .ok (candidate, found) =>
        if found then .ok (candidate, true) else scanBindings mode url n second candidate := by
  induction first generalizing candidate with
  | nil => rfl
  | cons binding first ih =>
    simp only [List.cons_append, scanBindings]
    cases strmatch url binding.memory n with
    | error why => rfl
    | ok current =>
      by_cases hmatch : binding.routeLen ≤ current
      · cases mode with
        | first => simp [hmatch]
        | longest => simp [hmatch, ih]
      · simp [hmatch, ih]

/-- The packs are scanned like one list of bindings. -/
theorem scanPacks_eq (mode : RouteMatchMode) (url : Bytes) (n : Int) (packs : List (RoutePack κ))
    (candidate : κ) : scanPacks mode url n packs candidate =
      (scanBindings mode url n (packs.flatMap RoutePack.bindings) candidate).map Prod.fst := by
  induction packs generalizing candidate with
  | nil => rfl
  | cons pack packs ih =>
    rw [scanPacks, List.flatMap_cons, scanBindings_append]
    cases scanBindings mode url n pack.bindings candidate with
    | error why => rfl
    | ok result =>
      obtain ⟨candidate, found⟩ := result
      cases found with
      | true => rfl
      | false => simp [ih]

/-- A stored binding is matched by the URLs its route is a prefix of. -/
theorem Stores.strmatch_eq {binding : RouteBinding κ} {entry : Bytes × κ}
    (h : Stores binding entry) {url : Bytes} (hnul : 0 ∉ url)
    (hint : (url.length : Int) ≤ intMax) (beyond : Bytes) :
    ∃ current : Nat, strmatch (url ++ beyond) binding.memory url.length = .ok current ∧
      (binding.routeLen ≤ current ↔ matchesUrl url entry = true) := by
  obtain ⟨pad, hpad⟩ := h.memory_eq
  obtain ⟨current, hcurrent, hiff⟩ := strmatch_spec hnul hint beyond pad
  refine ⟨current, by rw [hpad, hcurrent], ?_⟩
  rw [h.routeLen_eq, matchesUrl_iff, ← hiff]
  omega

theorem scanBindings_first {bindings : List (RouteBinding κ)} {bound : List (Bytes × κ)}
    (h : List.Forall₂ Stores bindings bound) {url : Bytes} (hnul : 0 ∉ url)
    (hint : (url.length : Int) ≤ intMax) (beyond : Bytes) (candidate : κ) :
    (scanBindings .first (url ++ beyond) url.length bindings candidate).map Prod.fst =
      .ok (((bound.find? (matchesUrl url)).map Prod.snd).getD candidate) := by
  induction h generalizing candidate with
  | nil => rfl
  | @cons binding entry bindings bound hstores _ ih =>
    obtain ⟨current, hcurrent, hiff⟩ := hstores.strmatch_eq hnul hint beyond
    rw [scanBindings, hcurrent]
    by_cases hmatch : matchesUrl url entry = true
    · simp only [if_pos (hiff.mpr hmatch), List.find?_cons_of_pos hmatch]
      rw [hstores.container_eq]
      rfl
    · simp only [if_neg (mt hiff.mp hmatch), List.find?_cons_of_neg hmatch]
      exact ih candidate

theorem scanBindings_longest {bindings : List (RouteBinding κ)} {bound : List (Bytes × κ)}
    (h : List.Forall₂ Stores bindings bound) {url : Bytes} (hnul : 0 ∉ url)
    (hint : (url.length : Int) ≤ intMax) (beyond : Bytes) (candidate : κ) :
    (scanBindings .longest (url ++ beyond) url.length bindings candidate).map Prod.fst =
      .ok ((((bound.filter (matchesUrl url)).getLast?).map Prod.snd).getD candidate) := by
  induction h generalizing candidate with
  | nil => rfl
  | @cons binding entry bindings bound hstores _ ih =>
    obtain ⟨current, hcurrent, hiff⟩ := hstores.strmatch_eq hnul hint beyond
    rw [scanBindings, hcurrent]
    by_cases hmatch : matchesUrl url entry = true
    · simp only [if_pos (hiff.mpr hmatch), List.filter_cons_of_pos hmatch, ih]
      rw [hstores.container_eq, List.getLast?_cons]
      cases (bound.filter (matchesUrl url)).getLast? <;> rfl
    · simp only [if_neg (mt hiff.mp hmatch), List.filter_cons_of_neg hmatch]
      exact ih candidate

/-! ### Requests and routers -/

/-- The request's URL slice. -/
def HTTPRequest.HasUrl (request : HTTPRequest) (url : Bytes) : Prop :=
  ∃ buffer, request.headersBuffer = some buffer ∧
    request.urlRange.offset + request.urlRange.length ≤ buffer.length ∧
    slice request.urlRange.offset request.urlRange.length buffer = url

theorem HTTPRequest.HasUrl.memory {request : HTTPRequest} {url : Bytes} (h : request.HasUrl url) :
    request.urlRange.length = url.length ∧
      ∃ beyond, (request.headersBuffer.getD []).drop request.urlRange.offset = url ++ beyond := by
  obtain ⟨buffer, hbuffer, hinside, rfl⟩ := h
  refine ⟨(length_slice hinside).symm,
    (buffer.drop request.urlRange.offset).drop request.urlRange.length, ?_⟩
  rw [hbuffer, Option.getD_some, slice, List.take_append_drop]

/-- The container of the earliest matching route. -/
def earliest (null : κ) (bound : List (Bytes × κ)) (url : Bytes) : κ :=
  ((bound.find? (matchesUrl url)).map Prod.snd).getD null

/-- The container of the latest matching route. -/
def latest (null : κ) (bound : List (Bytes × κ)) (url : Bytes) : κ :=
  (((bound.filter (matchesUrl url)).getLast?).map Prod.snd).getD null

theorem bmod_length {url : Bytes} (hint : (url.length : Int) ≤ intMax) :
    (url.length : Int).bmod (2 ^ 32) = url.length := by
  simp only [intMax] at hint
  rw [Int.bmod_eq_of_le] <;> omega

/-- The bindings decide, however the packs are filled. -/
theorem HTTPRouter.route_eq_of_stored {router : HTTPRouter κ} {bound : List (Bytes × κ)}
    (h : List.Forall₂ Stores (router.packs.flatMap RoutePack.bindings) bound)
    {request : HTTPRequest} {url : Bytes} (hurl : request.HasUrl url) (hnul : 0 ∉ url)
    (hint : (url.length : Int) ≤ intMax) :
    router.route request = .ok (match router.matchMode with
      | .first => earliest router.null bound url
      | .longest => latest router.null bound url) := by
  obtain ⟨hlength, beyond, hbeyond⟩ := hurl.memory
  rw [HTTPRouter.route, hlength, bmod_length hint, hbeyond, scanPacks_eq]
  cases router.matchMode with
  | first => exact scanBindings_first h hnul hint beyond router.null
  | longest => exact scanBindings_longest h hnul hint beyond router.null

theorem Represents.route_eq {router : HTTPRouter κ} {bound : List (Bytes × κ)}
    (h : Represents router bound) {request : HTTPRequest} {url : Bytes} (hurl : request.HasUrl url)
    (hnul : 0 ∉ url) (hint : (url.length : Int) ≤ intMax) :
    router.route request = .ok (match router.matchMode with
      | .first => earliest router.null bound url
      | .longest => latest router.null bound url) :=
  HTTPRouter.route_eq_of_stored h.stored hurl hnul hint

/-- The calls that set up a router. -/
inductive RouterOp (κ : Type) where
  | bind (route : Bytes) (container : κ)
  | setDefaultContainer (container : κ)

/-- A caller goes on when a binding is refused. -/
def RouterOp.apply : RouterOp κ → HTTPRouter κ → Outcome RouterFault (HTTPRouter κ)
  | .bind route container, router => (router.bind route container).recover id
  | .setDefaultContainer container, router => .ok (router.setDefaultContainer container)

/-- What a call binds: routes that are too long are refused. -/
def RouterOp.binding : RouterOp κ → Option (Bytes × κ)
  | .bind route container =>
    if (cString route).length ≤ routeMaxLen then some (cString route, container) else none
  | .setDefaultContainer _ => none

def RouterOp.default : RouterOp κ → Option κ
  | .bind _ _ => none
  | .setDefaultContainer container => some container

/-- The router these calls set up. -/
structure SetUp (null : κ) (mode : RouteMatchMode) (ops : List (RouterOp κ))
    (router : HTTPRouter κ) : Prop where
  represents : Represents router (ops.filterMap RouterOp.binding)
  starter_eq : router.starter = (ops.filterMap RouterOp.default).getLast?
  null_eq : router.null = null
  matchMode_eq : router.matchMode = mode

theorem SetUp.apply {null : κ} {mode : RouteMatchMode} {ops : List (RouterOp κ)}
    {router : HTTPRouter κ} (h : SetUp null mode ops router) (op : RouterOp κ) :
    ∃ next, op.apply router = .ok next ∧ SetUp null mode (ops ++ [op]) next := by
  cases op with
  | bind route container =>
    by_cases hroute : (cString route).length ≤ routeMaxLen
    · obtain ⟨packs, last, hbind, hrepresents⟩ := h.represents.bind hroute container
      refine ⟨{ router with packs := packs, last := last }, by rw [RouterOp.apply, hbind]; rfl,
        ?_, ?_, h.null_eq, h.matchMode_eq⟩
      · simpa [RouterOp.binding, hroute] using hrepresents
      · simpa [RouterOp.default] using h.starter_eq
    · refine ⟨router, ?_, ?_, ?_, h.null_eq, h.matchMode_eq⟩
      · rw [RouterOp.apply, HTTPRouter.bind, if_pos (by omega)]
        rfl
      · simpa [RouterOp.binding, hroute] using h.represents
      · simpa [RouterOp.default] using h.starter_eq
  | setDefaultContainer container =>
    refine ⟨_, rfl, ?_, ?_, h.null_eq, h.matchMode_eq⟩
    · have hnone : (ops ++ [RouterOp.setDefaultContainer container]).filterMap RouterOp.binding =
          ops.filterMap RouterOp.binding := by simp [RouterOp.binding]
      rw [hnone]
      exact ⟨h.represents.last_eq, h.represents.full, h.represents.stored⟩
    · simp [HTTPRouter.setDefaultContainer, RouterOp.default]

/-- Every list of calls sets up a router that holds its bindings in order. -/
theorem run_setUp (null : κ) (mode : RouteMatchMode) (ops : List (RouterOp κ)) :
    ∃ router, run RouterOp.apply ops (HTTPRouter.new null mode) = .ok router ∧
      SetUp null mode ops router := by
  induction ops using List.reverseRecOn with
  | nil => exact ⟨_, rfl, represents_new null mode, rfl, rfl, rfl⟩
  | append_singleton ops op ih =>
    obtain ⟨router, hrouter, hsetUp⟩ := ih
    obtain ⟨next, hnext, hnextUp⟩ := hsetUp.apply op
    exact ⟨next, by rw [CallOutcome.run_concat, hrouter]; exact hnext, hnextUp⟩

/-! ### The mode `ROUTE_MATCH_FIRST` -/

variable (containerServe : κ → HTTPRequest → σ → Int × σ)

/-- A default container that returns 0 serves alone; otherwise the container of
the earliest route that is a prefix of the URL serves, or the null container. -/
theorem serve_first (null : κ) (ops : List (RouterOp κ)) {request : HTTPRequest} {url : Bytes}
    (hurl : request.HasUrl url) (hnul : 0 ∉ url) (hint : (url.length : Int) ≤ intMax)
    (response : σ) :
    ∃ router served, run RouterOp.apply ops (HTTPRouter.new null .first) = .ok router ∧
      router.serve containerServe request response = .ok served ∧
      let chosen := earliest null (ops.filterMap RouterOp.binding) url
      match (ops.filterMap RouterOp.default).getLast? with
      | none => served = invoke containerServe chosen request response []
      | some starter =>
        let tried := containerServe starter request response
        (tried.1 = 0 → served = ⟨0, tried.2, [starter]⟩) ∧
        (tried.1 ≠ 0 → served = invoke containerServe chosen request tried.2 [starter]) := by
  obtain ⟨router, hrouter, hsetUp⟩ := run_setUp null .first ops
  have hroute := hsetUp.represents.route_eq hurl hnul hint
  rw [hsetUp.matchMode_eq, hsetUp.null_eq] at hroute
  rw [← hsetUp.starter_eq]
  cases hstarter : router.starter with
  | none =>
    refine ⟨router, _, hrouter, ?_, rfl⟩
    rw [HTTPRouter.serve, hstarter]
    simp only [hroute]
    rfl
  | some starter =>
    by_cases hzero : (containerServe starter request response).1 = 0
    · refine ⟨router, _, hrouter, ?_, fun _ => rfl, fun h => absurd hzero h⟩
      rw [HTTPRouter.serve, hstarter]
      simp [invoke, hzero]
    · refine ⟨router, _, hrouter, ?_, fun h => absurd h hzero, fun _ => rfl⟩
      rw [HTTPRouter.serve, hstarter]
      simp only [hroute, invoke, if_neg hzero]
      rfl

/-- A request with its URL at the front of its buffer. -/
def urlRequest (url : Bytes) : HTTPRequest :=
  { HTTPRequest.new with headersBuffer := some url, urlRange := ⟨0, url.length⟩ }

theorem hasUrl_urlRequest (url : Bytes) : (urlRequest url).HasUrl url :=
  ⟨url, rfl, by simp [urlRequest], by simp [urlRequest, slice]⟩

/-- `/` is bound before `/app`. -/
theorem serve_first_twoRoutes :
    ∃ router served, run RouterOp.apply [.bind (ascii "/") 1, .bind (ascii "/app") 2]
        (HTTPRouter.new 0 .first) = .ok router ∧
      router.serve (fun container _ log => ((container : Int), container :: log))
        (urlRequest (ascii "/app")) [] = .ok served ∧ served = ⟨1, [1], [1]⟩ := by
  obtain ⟨router, served, hrouter, hserved, h⟩ := serve_first
    (fun container _ log => ((container : Int), container :: log)) 0
    [.bind (ascii "/") 1, .bind (ascii "/app") 2] (hasUrl_urlRequest (ascii "/app"))
    (by decide) (by decide) []
  exact ⟨router, served, hrouter, hserved, h⟩

/-- A length that is a multiple of 2^32 becomes 0. -/
theorem serve_wrapped {size : Nat} (hpos : 0 < size) (hwrap : (size : Int).bmod (2 ^ 32) = 0) :
    (urlRequest (List.replicate size 47)).HasUrl (List.replicate size 47) ∧
      0 ∉ List.replicate size (47 : UInt8) ∧
      earliest 0 [([47], 1)] (List.replicate size 47) = 1 ∧
      ∃ router, run RouterOp.apply [.bind [47] 1] (HTTPRouter.new 0 .first) = .ok router ∧
        router.serve (fun _ _ response => ((0 : Int), response))
          (urlRequest (List.replicate size 47)) () = .ok ⟨0, (), [0]⟩ := by
  refine ⟨hasUrl_urlRequest _, by simp [List.mem_replicate], ?_, _, rfl, ?_⟩
  · obtain ⟨n, rfl⟩ : ∃ n, size = n + 1 := ⟨size - 1, by omega⟩
    simp [earliest, matchesUrl, List.replicate_succ]
  · have hlength : (urlRequest (List.replicate size 47)).urlRange.length = size :=
      List.length_replicate
    have hscan : ∀ url, scanBindings .first url 0 [RouteBinding.bound [47] 1] 0 =
        .ok (0, false) := by
      intro url
      rw [scanBindings, strmatch_zero]
      rfl
    have hpacks : ∀ url, scanPacks .first url 0
        [RoutePack.empty.add (.bound [47] 1) (by simp [RoutePack.empty])] 0 = .ok 0 := by
      intro url
      rw [scanPacks_eq]
      simp [RoutePack.add, RoutePack.empty, hscan, Except.map]
    simp only [HTTPRouter.serve, HTTPRouter.route, hlength, hwrap]
    exact congrArg (Except.map fun container => invoke (fun _ _ response => ((0 : Int), response))
      container (urlRequest (List.replicate size 47)) () []) (hpacks _)

/-- A URL of 2^32 slashes is not routed to the container bound to `/`. -/
theorem not_serve_first_wrappedLength :
    (urlRequest (List.replicate (2 ^ 32) 47)).HasUrl (List.replicate (2 ^ 32) 47) ∧
      0 ∉ List.replicate (2 ^ 32) (47 : UInt8) ∧
      earliest 0 [([47], 1)] (List.replicate (2 ^ 32) 47) = 1 ∧
      ∃ router, run RouterOp.apply [.bind [47] 1] (HTTPRouter.new 0 .first) = .ok router ∧
        router.serve (fun _ _ response => ((0 : Int), response))
          (urlRequest (List.replicate (2 ^ 32) 47)) () = .ok ⟨0, (), [0]⟩ :=
  serve_wrapped (by decide) (by decide)

/-! ### The mode `ROUTE_MATCH_LONGEST` -/

/-- A route that is a prefix of the URL, and no shorter than any other one. -/
structure Longest (bound : List (Bytes × κ)) (url : Bytes) (entry : Bytes × κ) : Prop where
  mem : entry ∈ bound
  matches_url : entry.1 <+: url
  longest : ∀ other ∈ bound, other.1 <+: url → other.1.length ≤ entry.1.length

/-- The container of a longest route that is a prefix of the URL serves, or the null container. -/
def ServedLongest (null : κ) (bound : List (Bytes × κ)) (url : Bytes) (invoked : List κ) : Prop :=
  (∃ entry, Longest bound url entry ∧ invoked = [entry.2]) ∨
    ((∀ entry ∈ bound, ¬ entry.1 <+: url) ∧ invoked = [null])

/-- The latest route that is a prefix of the URL shares its container with a longest one. -/
def LatestIsLongest (bound : List (Bytes × κ)) (url : Bytes) : Prop :=
  ∀ latest, (bound.filter (matchesUrl url)).getLast? = some latest →
    ∃ entry, Longest bound url entry ∧ entry.2 = latest.2

theorem servedLongest_iff (null : κ) (bound : List (Bytes × κ)) (url : Bytes) :
    ServedLongest null bound url [latest null bound url] ↔ LatestIsLongest bound url := by
  cases hlast : (bound.filter (matchesUrl url)).getLast? with
  | none =>
    have hnone : ∀ entry ∈ bound, ¬ entry.1 <+: url := by
      intro entry hmem hroute
      have hfilter := List.getLast?_eq_none_iff.mp hlast
      exact List.filter_eq_nil_iff.mp hfilter entry hmem (matchesUrl_iff.mpr hroute)
    simp only [LatestIsLongest, hlast, latest]
    exact iff_of_true (.inr ⟨hnone, rfl⟩) nofun
  | some last =>
    have hmem := List.mem_filter.mp (List.mem_of_getLast? hlast)
    simp only [ServedLongest, LatestIsLongest, hlast, latest, Option.map_some, Option.getD_some,
      List.cons.injEq, and_true, Option.some.injEq, forall_eq']
    constructor
    · rintro (⟨entry, hentry, heq⟩ | ⟨hnone, -⟩)
      · exact ⟨entry, hentry, heq.symm⟩
      · exact absurd (matchesUrl_iff.mp hmem.2) (hnone last hmem.1)
    · rintro ⟨entry, hentry, heq⟩
      exact .inl ⟨entry, hentry, heq.symm⟩

/-- The latest matching route serves, so the longest one does exactly when the
latest one is a longest one, as far as the container goes. -/
theorem serve_longest_iff (null : κ) (binds : List (Bytes × κ)) {request : HTTPRequest}
    {url : Bytes} (hurl : request.HasUrl url) (hnul : 0 ∉ url)
    (hint : (url.length : Int) ≤ intMax) (response : σ) :
    let ops := binds.map fun bind => RouterOp.bind bind.1 bind.2
    let bound := ops.filterMap RouterOp.binding
    ∃ router served, run RouterOp.apply ops (HTTPRouter.new null .longest) = .ok router ∧
      router.serve containerServe request response = .ok served ∧
      (ServedLongest null bound url served.invoked ↔ LatestIsLongest bound url) := by
  intro ops bound
  obtain ⟨router, hrouter, hsetUp⟩ := run_setUp null .longest ops
  have hroute := hsetUp.represents.route_eq hurl hnul hint
  rw [hsetUp.matchMode_eq, hsetUp.null_eq] at hroute
  have hstarter : router.starter = none := by
    rw [hsetUp.starter_eq, List.filterMap_map]
    simp [Function.comp_def, RouterOp.default]
  refine ⟨router, invoke containerServe (latest null bound url) request response [], hrouter, ?_,
    servedLongest_iff null bound url⟩
  rw [HTTPRouter.serve, hstarter]
  simp only [hroute]
  rfl

/-- In the order of their lengths. -/
theorem serve_longest_inOrder :
    ∃ router served, run RouterOp.apply [.bind (ascii "/") 1, .bind (ascii "/app") 2]
        (HTTPRouter.new 0 .longest) = .ok router ∧
      router.serve (fun _ _ response => ((0 : Int), response)) (urlRequest (ascii "/app")) () =
        .ok served ∧
      ServedLongest 0 [(ascii "/", 1), (ascii "/app", 2)] (ascii "/app") served.invoked := by
  obtain ⟨router, served, hrouter, hserved, hiff⟩ := serve_longest_iff
    (fun _ _ response => ((0 : Int), response)) 0 [(ascii "/", 1), (ascii "/app", 2)]
    (hasUrl_urlRequest (ascii "/app")) (by decide) (by decide) ()
  refine ⟨router, served, hrouter, hserved, hiff.mpr fun latest hlatest => ?_⟩
  obtain rfl : (ascii "/app", 2) = latest := Option.some.inj hlatest
  exact ⟨(ascii "/app", 2), ⟨by decide, by decide, by decide⟩, rfl⟩

/-- `/app` is bound before `/`. -/
theorem not_serve_longest_shorterLast :
    ∃ router served, run RouterOp.apply [.bind (ascii "/app") 1, .bind (ascii "/") 2]
        (HTTPRouter.new 0 .longest) = .ok router ∧
      router.serve (fun _ _ response => ((0 : Int), response)) (urlRequest (ascii "/app")) () =
        .ok served ∧ served.invoked = [2] ∧
      ¬ ServedLongest 0 [(ascii "/app", 1), (ascii "/", 2)] (ascii "/app") served.invoked := by
  refine ⟨_, ⟨0, (), [2]⟩, rfl, ?_, rfl, ?_⟩
  · rfl
  · rintro (⟨entry, hlongest, hinvoked⟩ | ⟨hnone, -⟩)
    · have hlength := hlongest.longest (ascii "/app", 1) (by decide) (by decide)
      have hentry : entry = (ascii "/app", 1) ∨ entry = (ascii "/", 2) := by
        simpa using hlongest.mem
      rcases hentry with rfl | rfl
      · cases hinvoked
      · exact absurd hlength (by decide)
    · exact hnone (ascii "/app", 1) (by decide) (by decide)

end Rapp
