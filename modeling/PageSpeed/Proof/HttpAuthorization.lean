import PageSpeed.Proof.WsManager
import PageSpeed.Spec.HttpMessages

/-!
# Who reaches a handler of the management API
-/

namespace PageSpeed.Http

open Wire List

variable (config : HttpServerConfig) (routes : List Route) (request : HttpRequest)

/-- The policy; the health route and the console are open to all. -/
def Authorized (route : Route) : Prop :=
  let isRead := request.method = lit "GET" ∨ request.method = lit "HEAD"
  let noToken := config.isPipe ∨ config.authToken = [] ∧ config.allowUnauthenticated
  (noToken ∨ config.authToken ≠ [] ∧ request.header (lit "authorization") = bearer ++
    config.authToken ∨
    config.readOpen ∧ route.auth = .kReadOpenOk ∧ isRead ∨ request.path = lit "/v1/health" ∨
    isRead ∧ (request.path = lit "/console" ∨ (lit "/console/").isPrefixOf request.path)) ∧
  (noToken ∧ (request.method = lit "POST" ∨ request.method = lit "PATCH") ∧
    (lit "/v1/").isPrefixOf request.path →
    request.header (lit "x-requested-with") = lit "XMLHttpRequest")

/-- A header that passes the comparison is the scheme and the token. -/
theorem bearer_append {header token : Bytes} (hscheme : bearer.isPrefixOf header)
    (htoken : constantTimeCompare (header.drop bearer.length) token) : header =
      bearer ++ token := by
  obtain ⟨rest, rfl⟩ := isPrefixOf_iff_prefix.1 hscheme
  rw [constantTimeCompare_iff, drop_left] at htoken
  rw [htoken]

/-- **A handler is called only for requests that are authorized for its route.** -/
theorem handler_authorized :
    match dispatchRequest config routes request with
    | .respond _ => True
    | .handler index _ =>
      ∃ route, routes[index]? = some route ∧ Authorized config request route := by
  have hfind : (routes.zipIdx.find? (·.1.serves request)).map Prod.fst =
      routes.find? (·.serves request) := by
    conv_rhs => rw [← zipIdx_map_fst 0 routes, find?_map]
    rfl
  by_cases hpre : request.method = lit "OPTIONS" ∧ config.corsOrigin ≠ []
  · rw [dispatchRequest, if_pos hpre]
    trivial
  rw [dispatchRequest, if_neg hpre]
  cases hrefusal : dispatchRefusal config routes request with
  | some refusal => trivial
  | none =>
    cases hentry : routes.zipIdx.find? (·.1.serves request) with
    | none => cases routes.any (·.pathMatches request) <;> trivial
    | some entry =>
      refine ⟨entry.1, by simpa [mem_zipIdx_iff_getElem?] using mem_of_find?_eq_some hentry, ?_⟩
      rw [hentry] at hfind
      simp only [dispatchRefusal, checkAuth, readOpenApplies, ← hfind, Option.map_some] at hrefusal
      unfold Authorized
      split_ifs at hrefusal <;> grind [bearer_append]

end PageSpeed.Http
