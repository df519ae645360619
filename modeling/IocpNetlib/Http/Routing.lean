import IocpNetlib.Http.Dispatch
import Mathlib.Data.List.Induction

/-!
# Which handler a request is routed to

`SetRoute` keeps one handler for each name `method + "_" + path`, and a request
is routed by the name of its method and its path.  Two different pairs may have
one name, so the handler is the one that was registered for the request if and
only if the last registration under the name agrees with the last one for the
pair.
-/

namespace IocpNetlib
namespace Http

open CString

universe u

/-- `method + "_" + path`. -/
def routeName (method path : List UInt8) : List UInt8 :=
  method ++ 95 :: path

/-- One call of `SetRoute`. -/
structure RouteCall (H : Type u) where
  method : List UInt8
  path : List UInt8
  handler : H
deriving DecidableEq, Repr

/-- `HttpServiceImplementer::SetRoute`: `mRoutes[method + "_" + path] = handler`. -/
def setRoute {H : Type u} (mRoutes : List (List UInt8 × H)) (c : RouteCall H) :
    List (List UInt8 × H) :=
  (routeName c.method c.path, c.handler) ::
    mRoutes.filter fun r => r.1 ≠ routeName c.method c.path

/-- The route table after a sequence of calls. -/
def setRoutes {H : Type u} (calls : List (RouteCall H)) : List (List UInt8 × H) :=
  calls.foldl setRoute []

/-- The handler of the latest call of which `P` holds. -/
def latestHandler {H : Type u} (P : RouteCall H → Prop) [DecidablePred P]
    (calls : List (RouteCall H)) : Option H :=
  (calls.reverse.find? fun c => decide (P c)).map RouteCall.handler

/-- What `SetRoute` was last called with for the method and the path. -/
def latestRoute {H : Type u} (calls : List (RouteCall H)) (method path : List UInt8) :
    Option H :=
  latestHandler (fun c => c.method = method ∧ c.path = path) calls

/-- What `SetRoute` was last called with under the name of the method and the path. -/
def latestNamed {H : Type u} (calls : List (RouteCall H)) (method path : List UInt8) :
    Option H :=
  latestHandler (fun c => routeName c.method c.path = routeName method path) calls

/-- The method of a request, and its path without the query. -/
def requestTarget (mem : List UInt8) (len : Nat) : Option (List UInt8 × List UInt8) :=
  match requestLineBlanks mem len with
  | some (some (sp1, sp2)) =>
      some (mem.take sp1,
        ((mem.drop (sp1 + 1)).take (sp2 - (sp1 + 1))).takeWhile (· ≠ 63))
  | _ => none

section Table

variable {H : Type u}

theorem latestHandler_snoc
    (P : RouteCall H → Prop) [DecidablePred P] (calls : List (RouteCall H)) (c : RouteCall H) :
    latestHandler P (calls ++ [c]) =
      if P c then some c.handler else latestHandler P calls := by
  unfold latestHandler
  rw [List.reverse_append, List.reverse_singleton, List.singleton_append, List.find?_cons]
  by_cases h : P c
  · simp [h]
  · simp [h]

theorem lookup_filter_ne
    (k name : List UInt8) (hk : k ≠ name) (mRoutes : List (List UInt8 × H)) :
    (mRoutes.filter fun r => r.1 ≠ name).lookup k = mRoutes.lookup k := by
  induction mRoutes with
  | nil => rfl
  | cons r rs ih =>
      obtain ⟨k', h⟩ := r
      by_cases hname : k' = name
      · have hne : (k == k') = false := by
          rw [hname]
          exact beq_eq_false_iff_ne.mpr hk
        rw [List.filter_cons_of_neg (by simp [hname]), ih, List.lookup_cons, hne]
      · rw [List.filter_cons_of_pos (by simp [hname]), List.lookup_cons, List.lookup_cons, ih]

/-- `SetRoute` changes the handler of its own name only. -/
theorem setRoute_lookup
    (mRoutes : List (List UInt8 × H)) (c : RouteCall H) (k : List UInt8) :
    (setRoute mRoutes c).lookup k =
      if routeName c.method c.path = k then some c.handler else mRoutes.lookup k := by
  rw [setRoute]
  by_cases hk : routeName c.method c.path = k
  · rw [if_pos hk, ← hk, List.lookup_cons, beq_self_eq_true]
  · have hne : (k == routeName c.method c.path) = false :=
      beq_eq_false_iff_ne.mpr fun heq => hk heq.symm
    rw [if_neg hk, List.lookup_cons, hne]
    exact lookup_filter_ne k _ (fun heq => hk heq.symm) mRoutes

/-- The table has the latest handler of every name. -/
theorem setRoutes_lookup
    (calls : List (RouteCall H)) (method path : List UInt8) :
    (setRoutes calls).lookup (routeName method path) = latestNamed calls method path := by
  induction calls using List.reverseRecOn with
  | nil => rfl
  | append_singleton calls c ih =>
      rw [setRoutes] at ih ⊢
      rw [latestNamed] at ih ⊢
      rw [List.foldl_append, List.foldl_cons, List.foldl_nil, setRoute_lookup, ih,
        latestHandler_snoc]

/-- An underscore in neither method tells two pairs apart by their names. -/
theorem routeName_injective
    {m m' p p' : List UInt8} (hm : (95 : UInt8) ∉ m) (hm' : (95 : UInt8) ∉ m') :
    routeName m p = routeName m' p' ↔ m = m' ∧ p = p' := by
  constructor
  · intro h
    unfold routeName at h
    have hmethod := congrArg (List.takeWhile (· ≠ 95)) h
    have hcut (x y : List UInt8) (hx : (95 : UInt8) ∉ x) :
        (x ++ 95 :: y).takeWhile (· ≠ 95) = x := by
      rw [List.takeWhile_append_of_pos]
      · simp
      · intro c hc
        have hne : c ≠ 95 := fun heq => hx (heq ▸ hc)
        simp [hne]
    rw [hcut _ _ hm, hcut _ _ hm'] at hmethod
    rw [hmethod] at h
    refine ⟨hmethod, ?_⟩
    have htail := List.append_cancel_left h
    exact (List.cons_eq_cons.mp htail).2
  · rintro ⟨rfl, rfl⟩
    rfl

/-- A registration for the pair is one under its name. -/
theorem latestRoute_none
    {calls : List (RouteCall H)} {m p : List UInt8} (h : latestNamed calls m p = none) :
    latestRoute calls m p = none := by
  rw [latestNamed, latestRoute, latestHandler] at *
  rw [Option.map_eq_none_iff, List.find?_eq_none] at h ⊢
  intro c hc hpair
  simp only [decide_eq_true_eq] at hpair
  exact h c hc (by simp [hpair.1, hpair.2])

/-- As long as no method has an underscore, the name stands for the pair. -/
theorem latestNamed_eq_latestRoute
    {calls : List (RouteCall H)} {m p : List UInt8} (hm : (95 : UInt8) ∉ m)
    (hcalls : ∀ c ∈ calls, (95 : UInt8) ∉ c.method) :
    latestNamed calls m p = latestRoute calls m p := by
  induction calls using List.reverseRecOn with
  | nil => rfl
  | append_singleton calls c ih =>
      have hc := hcalls c (List.mem_append_right _ List.mem_cons_self)
      have ih' := ih fun d hd => hcalls d (List.mem_append_left _ hd)
      rw [latestNamed, latestRoute] at ih' ⊢
      rw [latestHandler_snoc, latestHandler_snoc, ih']
      simp only [routeName_injective hc hm]

end Table

section Dispatching

variable {H : Type u} {w : Nat} {protocolHeader : HttpProtocolHeader} {mem : List UInt8}
  {len : Nat}

/-- What a search finds in front of the byte. -/
theorem memchr_front
    {ch : UInt8} {mem : List UInt8} {n : Nat} {q : Option Nat} (h : memchr ch mem n = some q) :
    mem.take (q.getD n) = (mem.take n).takeWhile (· ≠ ch) := by
  induction n generalizing mem q with
  | zero =>
      simp only [memchr, Option.some.injEq] at h
      subst h
      simp
  | succ n ih =>
      cases mem with
      | nil => exact absurd h (by simp [memchr])
      | cons b bs =>
          rw [memchr] at h
          by_cases hb : b = ch
          · rw [if_pos hb] at h
            simp only [Option.some.injEq] at h
            subst h
            simp [hb]
          · rw [if_neg hb] at h
            obtain ⟨o, ho, rfl⟩ := Option.map_eq_some_iff.mp h
            have hget : (o.map (· + 1)).getD (n + 1) = o.getD n + 1 := by
              cases o <;> rfl
            rw [hget, List.take_succ_cons, List.take_succ_cons, ih ho,
              List.takeWhile_cons_of_pos (by simpa using hb)]

/-- A request that is neither dropped nor misread goes through the route table. -/
theorem onHttpPacket_target
    {mRoutes : List (List UInt8 × H)} {d : Dispatch H}
    (hd : onHttpPacket w mRoutes protocolHeader mem len = d)
    (hdropped : d ≠ .dropped) (houtside : d ≠ .outside) :
    ∃ m p, requestTarget mem len = some (m, p) ∧
      (mRoutes.lookup (routeName m p) = none ∧ d = .notFound protocolHeader.socketID ∨
        ∃ handler req, mRoutes.lookup (routeName m p) = some handler ∧
          d = .handled handler req) := by
  rw [onHttpPacket] at hd
  split_ifs at hd with hlen
  · exact absurd hd.symm hdropped
  · split at hd
    · exact absurd hd.symm houtside
    · exact absurd hd.symm hdropped
    · next sp1 sp2 hblanks =>
        split_ifs at hd with hline
        · exact absurd hd.symm hdropped
        · split at hd
          · exact absurd hd.symm houtside
          · exact absurd hd.symm hdropped
          · split_ifs at hd with hhead
            · exact absurd hd.symm hdropped
            · split at hd
              · exact absurd hd.symm houtside
              · split_ifs at hd with hsum
                · exact absurd hd.symm hdropped
                · split at hd
                  · exact absurd hd.symm houtside
                  · split at hd
                    · exact absurd hd.symm houtside
                    · next q hq =>
                        -- the name of the request is made of the method and the pure path
                        have hkey :
                            routeKey mem sp1 (q.getD (sp2 - (sp1 + 1))) =
                              routeName (mem.take sp1)
                                (((mem.drop (sp1 + 1)).take (sp2 - (sp1 + 1))).takeWhile
                                  (· ≠ 63)) := by
                          rw [routeKey, routeName]
                          rw [memchr_front hq]
                        rw [hkey] at hd
                        refine ⟨_, _, by unfold requestTarget; rw [hblanks], ?_⟩
                        split at hd
                        · next hlookup => exact Or.inl ⟨hlookup, hd.symm⟩
                        · next handler hlookup =>
                            exact Or.inr ⟨handler, _, hlookup, hd.symm⟩

/-- The dispatch goes to the handler registered last for the pair, or ends in a 404. -/
structure RoutedExactly (calls : List (RouteCall H)) (m p : List UInt8) (socketID : UInt32)
    (d : Dispatch H) : Prop where
  handled : ∀ handler, (∃ req, d = .handled handler req) ↔ latestRoute calls m p = some handler
  notFound : latestRoute calls m p = none → d = .notFound socketID

/--
**When routing is exact.**  A request that reaches the route table is routed by
its own method and path if and only if the latest `SetRoute` under their name,
if there is one, registered the handler of the latest `SetRoute` for the pair.
-/
theorem routing_exact_iff
    (calls : List (RouteCall H))
    (hdropped : onHttpPacket w (setRoutes calls) protocolHeader mem len ≠ .dropped)
    (houtside : onHttpPacket w (setRoutes calls) protocolHeader mem len ≠ .outside) :
    ∃ m p, requestTarget mem len = some (m, p) ∧
      (RoutedExactly calls m p protocolHeader.socketID
          (onHttpPacket w (setRoutes calls) protocolHeader mem len) ↔
        ∀ handler, latestNamed calls m p = some handler →
          latestRoute calls m p = some handler) := by
  obtain ⟨m, p, htarget, hrouted⟩ := onHttpPacket_target rfl hdropped houtside
  refine ⟨m, p, htarget, ?_⟩
  rw [setRoutes_lookup] at hrouted
  rcases hrouted with ⟨hnamed, hd⟩ | ⟨handler, req, hnamed, hd⟩
  · have hnone : latestRoute calls m p = none := latestRoute_none hnamed
    rw [hd]
    refine iff_of_true ⟨?_, fun _ => rfl⟩ ?_
    · intro handler
      rw [hnone]
      constructor
      · rintro ⟨req, h⟩
        exact absurd h (by simp)
      · intro h
        exact absurd h (by simp)
    · intro handler h
      rw [hnamed] at h
      exact absurd h (by simp)
  · rw [hd]
    constructor
    · intro h handler' hnamed'
      rw [hnamed] at hnamed'
      exact (h.handled handler').mp ⟨req, by rw [Option.some.inj hnamed']⟩
    · intro h
      have hlatest := h handler hnamed
      refine ⟨?_, ?_⟩
      · intro handler'
        rw [hlatest, Option.some.injEq]
        constructor
        · rintro ⟨req', heq⟩
          injection heq
        · rintro rfl
          exact ⟨req, rfl⟩
      · intro hnone
        rw [hlatest] at hnone
        exact absurd hnone (by simp)

/-- `"GET_/a /b HTTP/1.1\r\n"` in front of a head for five bytes. -/
def underscoreRequest : List UInt8 :=
  [71, 69, 84, 95, 47, 97, 32, 47, 98, 32, 72, 84, 84, 80, 47, 49, 46, 49, 13, 10] ++ helloBody

/-- `SetRoute("GET", "/a_/b", 7)`. -/
def underscoreCall : RouteCall Nat where
  method := [71, 69, 84]
  path := [47, 97, 95, 47, 98]
  handler := 7

/-- The method `GET_/a` with the path `/b` is routed to what `GET` has for `/a_/b`. -/
theorem routing_underscore :
    requestTarget underscoreRequest underscoreRequest.length =
        some ([71, 69, 84, 95, 47, 97], [47, 98]) ∧
      latestRoute [underscoreCall] [71, 69, 84, 95, 47, 97] [47, 98] = none ∧
      ∃ req, onHttpPacket 64 (setRoutes [underscoreCall]) ⟨1, 0, 0⟩ underscoreRequest
          underscoreRequest.length = .handled 7 req := by
  refine ⟨by decide +kernel, by decide +kernel, ?_⟩
  refine ⟨{ socketId := 1
            remoteIP := 0
            remotePort := 0
            method := 0
            methodLen := 6
            path := 7
            pathLen := 2
            headers := ⟨0, 40, [⟨20, 14, 35, 1⟩]⟩
            body := 40
            bodyLen := 5
            keepAlive := true }, ?_⟩
  decide +kernel

/-- `SetRoute("POST", "/a", 3)` and the call above. -/
def twoCalls : List (RouteCall Nat) :=
  [⟨[80, 79, 83, 84], [47, 97], 3⟩, underscoreCall]

theorem routing_exact_iff_example :
    ∃ m p, requestTarget (postLine ++ helloBody) 43 = some (m, p) ∧
      RoutedExactly twoCalls m p 1
        (onHttpPacket 64 (setRoutes twoCalls) ⟨1, 0, 0⟩ (postLine ++ helloBody) 43) := by
  have hdropped :
      onHttpPacket 64 (setRoutes twoCalls) ⟨1, 0, 0⟩ (postLine ++ helloBody) 43 ≠
        .dropped := by
    decide +kernel
  have houtside :
      onHttpPacket 64 (setRoutes twoCalls) ⟨1, 0, 0⟩ (postLine ++ helloBody) 43 ≠
        .outside := by
    decide +kernel
  obtain ⟨m, p, htarget, hiff⟩ := routing_exact_iff twoCalls hdropped houtside
  refine ⟨m, p, htarget, hiff.mpr ?_⟩
  have hpair :
      requestTarget (postLine ++ helloBody) 43 = some ([80, 79, 83, 84], [47, 97]) := by
    decide +kernel
  rw [hpair] at htarget
  obtain ⟨rfl, rfl⟩ := Prod.mk.inj (Option.some.inj htarget)
  intro handler hnamed
  rw [latestNamed_eq_latestRoute (by decide) (by decide)] at hnamed
  exact hnamed

end Dispatching

end Http
end IocpNetlib
