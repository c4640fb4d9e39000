import Rapp.HttpRouter
import Rapp.TruncatedClose

/-!
# Requests without an answer

`on_new_request` with the router and the containers behind it. A container
reports an error with its result, the router hands the result on, and the
connection drops it. What a container appends and reports, after the requests
served before, is a parameter; the null container is the router's own.
-/
namespace Rapp

open CallOutcome (Outcome run)
open ByteBlock

variable {κ : Type}

inductive Container (κ : Type) where
  | null
  | plugin (handle : κ)
  deriving DecidableEq

/-- What a container returns and appends for a request. -/
structure Answer where
  ret : Int
  pieces : List Piece
  deriving DecidableEq

abbrev Plugins (κ : Type) := κ → List HTTPRequest → HTTPRequest → Answer

namespace Container

/-- `null_serve`, or the code of a plugin. -/
def answer (plugins : Plugins κ) (history : List HTTPRequest) (request : HTTPRequest) :
    Container κ → Answer
  | null => ⟨-1, []⟩
  | plugin handle => plugins handle history request

/-- The container writes to the response of the connection. -/
def serve (plugins : Plugins κ) (history : List HTTPRequest) (container : Container κ)
    (request : HTTPRequest) (s : ConnectionState) : Int × ConnectionState :=
  let answer := container.answer plugins history request
  (answer.ret, answer.pieces.foldl ConnectionState.append s)

end Container

/-- What the code of a new request gives no meaning to. -/
inductive ServeFault where
  | queue (why : Fault)
  | router (why : RouterFault)

namespace HTTPConnection

variable (router : HTTPRouter (Container κ)) (plugins : Plugins κ)

/-- `http_router_serve` for a request of this connection. -/
def httpRouterServe (request : HTTPRequest) (s : ConnectionState) :
    Except RouterFault (Served (Container κ) ConnectionState) :=
  router.serve (Container.serve plugins s.served) request
    { s with served := s.served ++ [request] }

/-- `on_new_request`; the result of the router is not looked at. -/
def onNewRequestRouted (m : HTTPConnection) : Outcome ServeFault HTTPConnection :=
  match m.queue.getNextRequest with
  | .error why => .undefined (.queue why)
  | .ok (none, _) => .undefined (.queue .nullRequest)
  | .ok (some request, queue) =>
    let response := m.data.response.setLast request.isLast
    match httpRouterServe router plugins request { m.data with response := response } with
    | .error why => .undefined (.router why)
    | .ok served => .ok { m with queue := queue, data := served.response }

/-! ### What serving appends -/

/-- The pieces appended for a request, the containers invoked in order. -/
def routed (history : List HTTPRequest) (request : HTTPRequest) :
    Except RouterFault (Int × List Piece) :=
  match router.starter with
  | none => (router.route request).map fun container =>
      let answer := container.answer plugins history request
      (answer.ret, answer.pieces)
  | some starter =>
    let tried := starter.answer plugins history request
    if tried.ret = 0 then .ok (0, tried.pieces)
    else (router.route request).map fun container =>
      let answer := container.answer plugins history request
      (answer.ret, tried.pieces ++ answer.pieces)

/-- The router of the connection is what a run of the connection calls `serve`. -/
def routedServe : Serve := fun history request =>
  match routed router plugins history request with
  | .error _ => []
  | .ok (_, pieces) => pieces

theorem httpRouterServe_eq (request : HTTPRequest) (s : ConnectionState) :
    (httpRouterServe router plugins request s).map (fun served => (served.ret, served.response)) =
      (routed router plugins s.served request).map fun routed =>
        (routed.1, routed.2.foldl ConnectionState.append
          { s with served := s.served ++ [request] }) := by
  rw [httpRouterServe, HTTPRouter.serve, routed]
  cases router.starter with
  | none =>
    simp only
    cases router.route request <;> rfl
  | some starter =>
    simp only [invoke, Container.serve]
    by_cases hret : (starter.answer plugins s.served request).ret = 0
    · simp [Except.map, hret]
    · cases router.route request with
      | error why => simp [Except.map, hret]
      | ok container => simp [Except.map, hret, List.foldl_append]

/-- With a router that goes through, it is the callback the runs of a connection are about. -/
theorem onNewRequestRouted_eq {m : HTTPConnection} {request : HTTPRequest}
    {queue : HTTPRequestQueue} {ret : Int} {pieces : List Piece}
    (hnext : m.queue.getNextRequest = .ok (some request, queue))
    (hrouted : routed router plugins m.data.served request = .ok (ret, pieces)) :
    ∃ n, onNewRequestRouted router plugins m = .ok n ∧
      onNewRequest (routedServe router plugins) m = .ok n := by
  have heq := httpRouterServe_eq router plugins request
    { m.data with response := m.data.response.setLast request.isLast }
  rw [hrouted] at heq
  rw [onNewRequestRouted, onNewRequest, hnext]
  simp only
  cases hserved : httpRouterServe router plugins request
      { m.data with response := m.data.response.setLast request.isLast } with
  | error why =>
    rw [hserved] at heq
    cases heq
  | ok served =>
    rw [hserved] at heq
    have hstate := congrArg Prod.snd (Except.ok.inj heq)
    refine ⟨_, rfl, ?_⟩
    simp only at hstate
    rw [hstate, ConnectionState.httpRouterServe, routedServe, hrouted]

/-! ### Errors of the router -/

/-- The router reports an error for the request delivered to the callback. -/
structure Refused (m : HTTPConnection) (request : HTTPRequest) : Prop where
  next : ∃ queue, m.queue.getNextRequest = .ok (some request, queue)
  served : ∃ served, httpRouterServe router plugins request
    { m.data with response := m.data.response.setLast request.isLast } = .ok served ∧
      served.ret ≠ 0

/-- Bytes of a response were appended, or the connection is to finish. -/
def Answered (m n : HTTPConnection) : Prop :=
  m.data.appended.length < n.data.appended.length ∨ 0 < n.data.finished

/-- The container appends a byte before it returns. -/
def Replies (plugins : Plugins κ) (history : List HTTPRequest) (request : HTTPRequest)
    (container : Container κ) : Prop :=
  ∃ piece ∈ (container.answer plugins history request).pieces,
    piece.resized = true ∧ piece.data ≠ []

theorem not_replies_null (plugins : Plugins κ) (history : List HTTPRequest)
    (request : HTTPRequest) : ¬ Replies plugins history request .null := by
  rintro ⟨piece, hp, -⟩
  cases hp

theorem appended_append (s : ConnectionState) (piece : Piece) :
    (s.append piece).appended =
      if piece.resized then s.appended ++ piece.data else s.appended := by
  cases h : piece.resized <;> simp [ConnectionState.append, HTTPResponse.appendData, h]

theorem appended_foldl (pieces : List Piece) (s : ConnectionState) :
    (pieces.foldl ConnectionState.append s).appended =
      s.appended ++ (pieces.filter (·.resized)).flatMap (·.data) := by
  induction pieces generalizing s with
  | nil => simp
  | cons piece pieces ih =>
    rw [List.foldl_cons, ih, appended_append]
    cases h : piece.resized <;> simp [h]

/-- Some append of the pieces is not empty. -/
theorem appended_foldl_lt (pieces : List Piece) (s : ConnectionState) :
    s.appended.length < (pieces.foldl ConnectionState.append s).appended.length ↔
      ∃ piece ∈ pieces, piece.resized = true ∧ piece.data ≠ [] := by
  rw [appended_foldl, List.length_append]
  have hpos : 0 < ((pieces.filter (·.resized)).flatMap (·.data)).length ↔
      ∃ piece ∈ pieces, piece.resized = true ∧ piece.data ≠ [] := by
    rw [List.length_pos_iff, ne_eq, List.flatMap_eq_nil_iff]
    simp only [List.mem_filter, not_forall]
    constructor
    · rintro ⟨piece, ⟨hp, hr⟩, hd⟩
      exact ⟨piece, hp, hr, hd⟩
    · rintro ⟨piece, hp, hr, hd⟩
      exact ⟨piece, ⟨hp, hr⟩, hd⟩
  rw [← hpos]
  omega

variable {router plugins}

/-- With an error, both the default container and the container of the route were tried. -/
theorem Refused.routed {m : HTTPConnection} {request : HTTPRequest}
    (h : Refused router plugins m request) :
    ∃ container ret, router.route request = .ok container ∧
      HTTPConnection.routed router plugins m.data.served request = .ok (ret,
        (match router.starter with
          | none => []
          | some starter => (starter.answer plugins m.data.served request).pieces) ++
          (container.answer plugins m.data.served request).pieces) := by
  obtain ⟨served, hserved, hret⟩ := h.served
  have heq := httpRouterServe_eq router plugins request
    { m.data with response := m.data.response.setLast request.isLast }
  rw [hserved] at heq
  rw [HTTPConnection.routed] at heq ⊢
  cases hstarter : router.starter with
  | none =>
    rw [hstarter] at heq
    cases hroute : router.route request with
    | error why =>
      rw [hroute] at heq
      cases heq
    | ok container => exact ⟨container, _, rfl, rfl⟩
  | some starter =>
    rw [hstarter] at heq
    by_cases hzero : (starter.answer plugins m.data.served request).ret = 0
    · simp only [hzero, if_true] at heq
      have := congrArg Prod.fst (Except.ok.inj heq)
      exact absurd this hret
    · cases hroute : router.route request with
      | error why =>
        simp only [hzero, if_false, hroute] at heq
        cases heq
      | ok container =>
        refine ⟨container, (container.answer plugins m.data.served request).ret, rfl, ?_⟩
        simp [hzero, Except.map]

/-- What answers an error, once the callback has returned. -/
theorem Refused.answered {m : HTTPConnection} {request : HTTPRequest}
    (h : Refused router plugins m request) :
    ∃ n, onNewRequestRouted router plugins m = .ok n ∧
      (Answered m n ↔ 0 < m.data.finished ∨
        (∃ starter, router.starter = some starter ∧
          Replies plugins m.data.served request starter) ∨
        ∃ container, router.route request = .ok container ∧
          Replies plugins m.data.served request container) := by
  obtain ⟨queue, hnext⟩ := h.next
  obtain ⟨container, ret, hroute, hrouted⟩ := h.routed
  obtain ⟨n, hn, hn'⟩ := onNewRequestRouted_eq router plugins hnext hrouted
  let before : ConnectionState := { m.data with
    response := m.data.response.setLast request.isLast
    served := m.data.served ++ [request] }
  have hdata : n.data = (routedServe router plugins m.data.served request).foldl
      ConnectionState.append before := by
    obtain ⟨_, _, hnext', rfl⟩ := onNewRequest_ok hn'
    cases hnext.symm.trans hnext'
    rfl
  have hanswered : Answered m n ↔ 0 < m.data.finished ∨
      ∃ piece ∈ routedServe router plugins m.data.served request,
        piece.resized = true ∧ piece.data ≠ [] := by
    rw [Answered, hdata, (untouched_foldl_append _ before).finished, or_comm]
    exact or_congr_right (appended_foldl_lt _ before)
  refine ⟨n, hn, hanswered.trans (or_congr_right ?_)⟩
  rw [routedServe, hrouted]
  cases hstarter : router.starter with
  | none => simp [Replies, hroute]
  | some starter => simp [Replies, hroute, or_and_right, exists_or]

/-- An error is answered when a container that was tried replied before it
reported, or the connection was to finish before. -/
theorem answered_iff {m : HTTPConnection} {request : HTTPRequest}
    (h : Refused router plugins m request) :
    (∃ n, onNewRequestRouted router plugins m = .ok n ∧ Answered m n) ↔
      0 < m.data.finished ∨
      (∃ starter, router.starter = some starter ∧
        Replies plugins m.data.served request starter) ∨
      ∃ container, router.route request = .ok container ∧
        Replies plugins m.data.served request container := by
  obtain ⟨n, hn, hanswered⟩ := h.answered
  rw [← hanswered]
  constructor
  · rintro ⟨l, hl, hans⟩
    cases hn.symm.trans hl
    exact hans
  · exact fun hans => ⟨n, hn, hans⟩

/-- Without bindings the null container serves, whatever the URL. -/
theorem route_new (mode : RouteMatchMode) (request : HTTPRequest) :
    (HTTPRouter.new (Container.null : Container κ) mode).route request = .ok .null := rfl

/-- The connection as a whole `GET` leaves it when the callback is invoked. -/
theorem exists_afterGet : ∃ (m : HTTPConnection) (request : HTTPRequest)
    (queue : HTTPRequestQueue),
    run (appendData parsePath Outcome.ok) [wholeGet true] (new (ascii "rapp")) = .ok m ∧
      m.queue.getNextRequest = .ok (some request, queue) ∧ m.data.finished = 0 := by
  have hrun : ∃ m, run (appendData parsePath Outcome.ok) [wholeGet true] (new (ascii "rapp")) =
      .ok m ∧ (m.queue.outgoingIndex, (m.queue.requests[0]).isSome, m.data.finished) =
        (0, true, 0) :=
    Outcome.exists_of_toOption (by decide +kernel)
  obtain ⟨m, hm, hafter⟩ := hrun
  simp only [Prod.mk.injEq, Option.isSome_iff_exists] at hafter
  obtain ⟨houtgoing, ⟨request, hrequest⟩, hfinished⟩ := hafter
  refine ⟨m, request, { m.queue with outgoingIndex := 1 }, hm, ?_, hfinished⟩
  simp only [HTTPRequestQueue.getNextRequest, houtgoing, hrequest]
  rfl

/-- A plugin that reports an error after a short page. -/
def apologize : Plugins Unit := fun _ _ _ => ⟨-1, [⟨ascii "HTTP/1.1 500 Sorry\r\n\r\n", true⟩]⟩

theorem answered_apologize : ∃ (m : HTTPConnection) (request : HTTPRequest),
    Refused ((HTTPRouter.new .null .first).setDefaultContainer (.plugin ())) apologize m request ∧
    ((∃ n, onNewRequestRouted ((HTTPRouter.new .null .first).setDefaultContainer (.plugin ()))
        apologize m = .ok n ∧ Answered m n) ↔
      0 < m.data.finished ∨
      (∃ starter, some (.plugin ()) = some starter ∧
        Replies apologize m.data.served request starter) ∨
      ∃ container, ((HTTPRouter.new .null .first).setDefaultContainer (.plugin ())).route request =
        .ok container ∧ Replies apologize m.data.served request container) := by
  obtain ⟨m, request, queue, -, hnext, -⟩ := exists_afterGet
  have h : Refused ((HTTPRouter.new .null .first).setDefaultContainer (.plugin ())) apologize
      m request := ⟨⟨queue, hnext⟩, _, rfl, (by decide : (-1 : Int) ≠ 0)⟩
  exact ⟨m, request, h, answered_iff h⟩

/-- No route matches: nothing is appended and the connection is kept. -/
theorem not_answered_unrouted : ∃ (m : HTTPConnection) (request : HTTPRequest),
    run (appendData parsePath Outcome.ok) [wholeGet true] (new (ascii "rapp")) = .ok m ∧
    Refused (HTTPRouter.new .null .first) apologize m request ∧
    ¬ ∃ n, onNewRequestRouted (HTTPRouter.new .null .first) apologize m = .ok n ∧
      Answered m n := by
  obtain ⟨m, request, queue, hm, hnext, hfinished⟩ := exists_afterGet
  have h : Refused (HTTPRouter.new .null .first) apologize m request :=
    ⟨⟨queue, hnext⟩, _, rfl, (by decide : (-1 : Int) ≠ 0)⟩
  refine ⟨m, request, hm, h, ?_⟩
  rintro ⟨n, hn, hans⟩
  obtain ⟨n', hn', hanswered⟩ := h.answered
  cases hn.symm.trans hn'
  obtain hfin | ⟨_, hstarter, -⟩ | ⟨container, hroute, hreplies⟩ := hanswered.mp hans
  · omega
  · cases hstarter
  · cases (route_new .first request).symm.trans hroute
    exact not_replies_null _ _ _ hreplies

end HTTPConnection

end Rapp
