import Mathlib.Data.List.TakeWhile
import ResourceApi.Proofs.Schema.ForeignKeys
import ResourceApi.Proofs.Text.Utf8
import ResourceApi.Service.Route

/-!
# Paths and routes

A path leads *below* the served one when it is that path without slashes at its end, a slash, a body
and any number of slashes (`Route.IsBelow`). The body neither is empty nor ends in a slash, so a path
has at most one.

**Theorem (`Route.routes_of_paths`).** A path has a route exactly if its body is an endpoint, which
leads to the collection, or is no endpoint but an endpoint, a slash and an escaped identifier, which
leads to the member. In both cases the resource is the first one that is served under the endpoint. So
every identifier can be reached, however it is escaped, if that leaves no slash and the path to it is
not itself an endpoint.
-/

namespace ResourceApi

/-! ## Texts taken apart -/

namespace Text

/-- A text is another one with any number of `c` behind it, and the other one does not end in `c`. -/
structure Trims (c : Char) (cs base : List Char) : Prop where
  eq : ∃ n, cs = base ++ List.replicate n c
  last : base.getLast? ≠ some c

theorem trims_trimEnd (c : Char) (cs : List Char) : Trims c cs (trimEnd c cs) where
  eq := by
    have hall : ∀ d ∈ cs.reverse.takeWhile (· == c), d = c := fun d hd => by
      simpa using List.mem_takeWhile_imp hd
    have hcs := congrArg List.reverse (List.takeWhile_append_dropWhile (p := (· == c))
      (l := cs.reverse))
    rw [List.reverse_append, List.reverse_reverse, List.eq_replicate_of_mem hall,
      List.reverse_replicate] at hcs
    exact ⟨_, hcs.symm⟩
  last := by
    rw [trimEnd, List.getLast?_reverse]
    intro hhead
    have hne := List.head?_dropWhile_not (· == c) cs.reverse
    rw [hhead] at hne
    simp at hne

/-- Only one text is left when the end is taken off. -/
theorem trimEnd_eq_iff {c : Char} {cs base : List Char} : trimEnd c cs = base ↔ Trims c cs base := by
  constructor
  · rintro rfl
    exact trims_trimEnd c cs
  · rintro ⟨⟨n, rfl⟩, hlast⟩
    have hstop : base.reverse.dropWhile (· == c) = base.reverse := by
      cases h : base.reverse with
      | nil => rfl
      | cons d rest =>
        rw [← List.head?_reverse, h] at hlast
        have hd : d ≠ c := fun he => hlast (congrArg some he)
        simp [hd]
    rw [trimEnd, List.reverse_append, List.reverse_replicate, List.dropWhile_append_of_pos, hstop,
      List.reverse_reverse]
    simp

theorem cutLast_eq_none_iff {sep : Char} {cs : List Char} : cutLast sep cs = none ↔ sep ∉ cs := by
  induction cs with
  | nil => simp [cutLast]
  | cons c rest ih =>
    rw [cutLast, List.mem_cons, not_or, ← ih]
    cases cutLast sep rest with
    | some cut => simp
    | none => simp [eq_comm (a := sep)]

/-- A text is cut at the last separator. -/
theorem cutLast_append {sep : Char} {ds : List Char} (h : sep ∉ ds) (cs : List Char) :
    cutLast sep (cs ++ sep :: ds) = some (cs, ds) := by
  induction cs with
  | nil =>
    rw [List.nil_append, cutLast, cutLast_eq_none_iff.2 h]
    exact if_pos rfl
  | cons c rest ih => rw [List.cons_append, cutLast, ih]

theorem eq_append_of_cutLast {sep : Char} {cs before after : List Char}
    (h : cutLast sep cs = some (before, after)) : cs = before ++ sep :: after ∧ sep ∉ after := by
  induction cs generalizing before with
  | nil => cases h
  | cons c rest ih =>
    rw [cutLast] at h
    split at h
    · rename_i before' after' hrest
      cases h
      obtain ⟨hcs, hafter⟩ := ih hrest
      exact ⟨congrArg (c :: ·) hcs, hafter⟩
    · rename_i hrest
      split at h
      · rename_i hc
        cases h
        exact ⟨by rw [hc]; rfl, cutLast_eq_none_iff.1 hrest⟩
      · cases h

theorem cutLast_eq_some_iff {sep : Char} {cs before after : List Char} :
    cutLast sep cs = some (before, after) ↔ cs = before ++ sep :: after ∧ sep ∉ after :=
  ⟨eq_append_of_cutLast, fun ⟨h, hafter⟩ => h ▸ cutLast_append hafter before⟩

/-- A text is cut at its last separator in one way. -/
theorem append_inj_of_notMem {sep : Char} {cs cs' ds ds' : List Char}
    (h : cs ++ sep :: ds = cs' ++ sep :: ds') (hds : sep ∉ ds) (hds' : sep ∉ ds') :
    cs = cs' ∧ ds = ds' := by
  have hcut := cutLast_append hds cs
  rw [h, cutLast_append hds' cs'] at hcut
  exact (Prod.mk.inj (Option.some.inj hcut)).imp Eq.symm Eq.symm

end Text

/-! ## What a path leads to -/

/-- The schema is the first one that is served under the endpoint. -/
structure Registry.Serves (r : Registry) (endpoint : String) (s : Schema) : Prop where
  eq : s.endpoint = endpoint
  first : ∃ before after, r.schemas = before ++ s :: after ∧ ∀ t ∈ before, t.endpoint ≠ endpoint

theorem Registry.Serves.mem {r : Registry} {endpoint : String} {s : Schema}
    (h : r.Serves endpoint s) : s ∈ r.schemas := by
  obtain ⟨before, after, hsplit, -⟩ := h.first
  simp [hsplit]

theorem Registry.byEndpoint?_eq_some_iff {r : Registry} {endpoint : String} {s : Schema} :
    r.byEndpoint? endpoint = some s ↔ r.Serves endpoint s := by
  rw [Registry.byEndpoint?, List.find?_eq_some_iff_append]
  constructor
  · rintro ⟨heq, before, after, hsplit, hne⟩
    exact ⟨by simpa using heq, before, after, hsplit, fun t ht => by simpa using hne t ht⟩
  · rintro ⟨heq, before, after, hsplit, hne⟩
    exact ⟨by simpa using heq, before, after, hsplit, fun t ht => by simpa using hne t ht⟩

theorem Registry.Serves.unique {r : Registry} {endpoint : String} {s t : Schema}
    (hs : r.Serves endpoint s) (ht : r.Serves endpoint t) : s = t :=
  Option.some.inj
    ((byEndpoint?_eq_some_iff.2 hs).symm.trans (byEndpoint?_eq_some_iff.2 ht))

theorem Registry.byEndpoint?_eq_none_iff {r : Registry} {endpoint : String} :
    r.byEndpoint? endpoint = none ↔ ∀ t ∈ r.schemas, t.endpoint ≠ endpoint := by
  simp [Registry.byEndpoint?]

/-- The bytes of the first text, without escapes, are those of the second one. -/
def Text.Percent.Escapes (raw s : String) : Prop :=
  unescape (Utf8.encode raw.toList) = Utf8.encode s.toList

theorem Text.Percent.decode?_eq_some_iff {raw s : String} :
    decode? raw = some s ↔ Escapes raw s := by
  rw [decode?, Option.map_eq_some_iff, Escapes, ← Utf8.decode?_eq_some_iff]
  constructor
  · rintro ⟨cs, hcs, rfl⟩
    rwa [String.toList_ofList]
  · exact fun h => ⟨s.toList, h, String.ofList_toList⟩

theorem Text.Percent.Escapes.unique {raw s t : String} (hs : Escapes raw s) (ht : Escapes raw t) :
    s = t :=
  Option.some.inj ((decode?_eq_some_iff.2 hs).symm.trans (decode?_eq_some_iff.2 ht))

theorem Text.Percent.escapes_encode (s : String) : Escapes (encode s) s := by
  have h := (spells_encode s).bytes []
  rwa [List.append_nil, unescape, List.append_nil] at h

theorem Text.Percent.slash_notMem_encode (s : String) : '/' ∉ (encode s).toList :=
  fun h => absurd (isPlain_of_mem_encode h) (by decide)

namespace Route

/-- A path leads below the served one: after that path without slashes at its end comes a slash, and
then the body with any number of slashes behind it. -/
structure IsBelow (served path body : String) : Prop where
  ne : body ≠ ""
  eq : ∃ base rest, Text.Trims '/' served.toList base ∧ path.toList = base ++ '/' :: rest ∧
    Text.Trims '/' rest body.toList

/-- What a method asks of a collection. -/
inductive OnCollection (s : Schema) : Method → Route → Prop
  | findAll : OnCollection s .get (.findAll s)
  | create : OnCollection s .post (.create s)

/-- What a method asks of a member. -/
inductive OnMember (s : Schema) (id : String) : Method → Route → Prop
  | findOne : OnMember s id .get (.findOne s id)
  | update : OnMember s id .patch (.update s id)
  | destroy : OnMember s id .delete (.destroy s id)

variable {s : Schema} {method : Method} {route : Route}

theorem ofCollection?_eq_some_iff :
    ofCollection? s method = some route ↔ OnCollection s method route := by
  constructor
  · intro h
    cases method <;> cases h
    · exact .findAll
    · exact .create
  · rintro (_ | _) <;> rfl

theorem ofMember?_eq_some_iff {id : String} :
    ofMember? s id method = some route ↔ OnMember s id method route := by
  constructor
  · intro h
    cases method <;> cases h
    · exact .findOne
    · exact .update
    · exact .destroy
  · rintro (_ | _ | _) <;> rfl

theorem afterLead?_eq_some_iff {lead cs rest : List Char} :
    afterLead? lead cs = some rest ↔ cs = lead ++ rest := by
  unfold afterLead?
  constructor
  · intro h
    split at h
    · rename_i hlead
      obtain ⟨tl, rfl⟩ := List.isPrefixOf_iff_prefix.1 hlead
      rw [List.drop_left] at h
      cases h
      rfl
    · cases h
  · rintro rfl
    rw [if_pos (List.isPrefixOf_iff_prefix.2 (List.prefix_append lead rest)), List.drop_left]

theorem body?_eq_some_iff {served path body : String} :
    body? served path = some body.toList ↔ IsBelow served path body := by
  have hempty (rest : List Char) :
      (if (Text.trimEnd '/' rest).isEmpty then none else some (Text.trimEnd '/' rest))
        = some body.toList ↔ Text.Trims '/' rest body.toList ∧ body ≠ "" := by
    rw [Option.ite_none_left_eq_some, Option.some.injEq, ← Text.trimEnd_eq_iff, and_comm]
    refine and_congr_right fun h => not_congr ?_
    rw [h, List.isEmpty_iff, String.toList_eq_nil_iff]
  simp only [body?, Option.bind_eq_bind, Option.bind_eq_some_iff, afterLead?_eq_some_iff, hempty]
  constructor
  · rintro ⟨_, hpath, rest, rfl, hbody, hne⟩
    exact ⟨hne, _, rest, Text.trims_trimEnd .., hpath, hbody⟩
  · rintro ⟨hne, base, rest, hbase, hpath, hbody⟩
    rw [Text.trimEnd_eq_iff.2 hbase]
    exact ⟨_, hpath, rest, rfl, hbody, hne⟩

/-- What a method asks of the resource behind a body: of the collection if the body is an endpoint,
else of the member whose escaped identifier follows an endpoint. -/
inductive LeadsTo (r : Registry) (body : String) (method : Method) (route : Route) : Prop
  | collection {s : Schema} : r.Serves body s → OnCollection s method route →
      LeadsTo r body method route
  | member {s : Schema} {raw id : String} : (∀ t ∈ r.schemas, t.endpoint ≠ body) →
      r.Serves s.endpoint s → body = s.endpoint ++ "/" ++ raw → '/' ∉ raw.toList →
      Text.Percent.Escapes raw id → OnMember s id method route → LeadsTo r body method route

variable {r : Registry} {served path : String}

theorem resolve?_of_body {body : String} (h : IsBelow served path body) :
    resolve? r served method path = some route ↔ LeadsTo r body method route := by
  rw [resolve?, body?_eq_some_iff.2 h, Option.bind_eq_bind, Option.bind_some, String.ofList_toList]
  split
  · rename_i s hs
    rw [ofCollection?_eq_some_iff]
    constructor
    · exact .collection (Registry.byEndpoint?_eq_some_iff.1 hs)
    · rintro (⟨hs', hroute⟩ | ⟨hnone, -⟩)
      · rw [← Registry.byEndpoint?_eq_some_iff, hs] at hs'
        exact Option.some.inj hs' ▸ hroute
      · rw [← Registry.byEndpoint?_eq_none_iff, hs] at hnone
        cases hnone
  · rename_i hnone
    have hnone := Registry.byEndpoint?_eq_none_iff.1 hnone
    constructor
    · intro h
      obtain ⟨⟨endpoint, rawId⟩, hcut, h⟩ := Option.bind_eq_some_iff.1 h
      obtain ⟨s, hs, h⟩ := Option.bind_eq_some_iff.1 h
      obtain ⟨id, hid, h⟩ := Option.bind_eq_some_iff.1 h
      obtain ⟨hbody, hslash⟩ := Text.cutLast_eq_some_iff.1 hcut
      have hs := Registry.byEndpoint?_eq_some_iff.1 hs
      have hbelow : body = s.endpoint ++ "/" ++ String.ofList rawId := by
        rw [← String.toList_inj, hbody, hs.eq]
        simp
      refine .member hnone (hs.eq ▸ hs) hbelow ?_ (Text.Percent.decode?_eq_some_iff.1 hid)
        (ofMember?_eq_some_iff.1 h)
      rwa [String.toList_ofList]
    · rintro (⟨hs, -⟩ | @⟨s, raw, id, -, hs, rfl, hslash, hid, hroute⟩)
      · exact absurd hs.eq (hnone _ hs.mem)
      · have hcut : Text.cutLast '/' (s.endpoint ++ "/" ++ raw).toList =
            some (s.endpoint.toList, raw.toList) :=
          Text.cutLast_eq_some_iff.2 ⟨by simp, hslash⟩
        rw [hcut, Option.bind_eq_bind, Option.bind_some]
        simp only [String.ofList_toList, Registry.byEndpoint?_eq_some_iff.2 hs,
          Text.Percent.decode?_eq_some_iff.2 hid, Option.bind_eq_bind, Option.bind_some]
        exact ofMember?_eq_some_iff.2 hroute

theorem resolve?_eq_some_iff : resolve? r served method path = some route ↔
    ∃ body, IsBelow served path body ∧ LeadsTo r body method route := by
  constructor
  · intro h
    obtain ⟨body, hbody, -⟩ := Option.bind_eq_some_iff.1 h
    rw [← String.toList_ofList (l := body), body?_eq_some_iff] at hbody
    exact ⟨_, hbody, (resolve?_of_body hbody).1 h⟩
  · rintro ⟨body, hbody, hroute⟩
    exact (resolve?_of_body hbody).2 hroute

/-- The path that goes on with a text below the served one. -/
theorem isBelow_append {base body : String} (hbase : Text.Trims '/' served.toList base.toList)
    (hne : body ≠ "") (hlast : body.toList.getLast? ≠ some '/') :
    IsBelow served (base ++ "/" ++ body) body where
  ne := hne
  eq := ⟨base.toList, body.toList, hbase, by simp, ⟨0, by simp⟩, hlast⟩

/-- **Paths and routes.** -/
theorem routes_of_paths (r : Registry) (served : String) (method : Method) :
    (∀ path route, resolve? r served method path = some route ↔
      ∃ body, IsBelow served path body ∧ LeadsTo r body method route) ∧
    (∀ base s id raw, Text.Trims '/' served.toList base.toList → r.Serves s.endpoint s → id ≠ "" →
      Text.Percent.Escapes raw id → '/' ∉ raw.toList →
      (∀ t ∈ r.schemas, t.endpoint ≠ s.endpoint ++ "/" ++ raw) → ∀ route,
        resolve? r served method (base ++ "/" ++ (s.endpoint ++ "/" ++ raw)) = some route ↔
          OnMember s id method route) ∧
    ∀ id, Text.Percent.Escapes (Text.Percent.encode id) id ∧
      '/' ∉ (Text.Percent.encode id).toList := by
  refine ⟨fun path route => resolve?_eq_some_iff, ?_,
    fun id => ⟨Text.Percent.escapes_encode id, Text.Percent.slash_notMem_encode id⟩⟩
  intro base s id raw hbase hs hid hraw hslash hnone route
  have hne : raw.toList ≠ [] := by
    intro he
    obtain rfl := String.toList_eq_nil_iff.1 he
    exact hid (hraw.unique rfl)
  have hlast : (s.endpoint ++ "/" ++ raw).toList.getLast? ≠ some '/' := by
    rw [String.toList_append, List.getLast?_append_of_ne_nil _ hne]
    exact fun h => hslash (List.mem_of_getLast? h)
  rw [resolve?_of_body (isBelow_append hbase (by simp) hlast)]
  constructor
  · rintro (⟨hs', -⟩ | @⟨s', raw', id', -, hs', heq, hslash', hraw', hroute⟩)
    · exact absurd hs'.eq (hnone _ hs'.mem)
    · obtain ⟨hendpoint, hrest⟩ := Text.append_inj_of_notMem
        (by simpa using congrArg String.toList heq) hslash hslash'
      obtain rfl := String.toList_inj.1 hrest
      obtain rfl := hs.unique (String.toList_inj.1 hendpoint ▸ hs')
      rwa [hraw.unique hraw']
  · exact .member hnone hs rfl hslash hraw

/-- The identifier `a/é` of a namespaced resource, and slashes at the ends of both paths. -/
theorem routes_of_duties :
    Text.Trims '/' "/api/".toList "/api".toList ∧ duties.Serves "admin/users" adminUser ∧
      resolve? duties "/api/" .patch "/api/admin/users/a%2F%C3%A9" =
        some (.update adminUser "a/é") ∧
      resolve? duties "/api/" .get "/api/admin/users//" = some (.findAll adminUser) := by
  have hbase : Text.Trims '/' "/api/".toList "/api".toList := ⟨⟨1, by decide⟩, by decide⟩
  have hs : duties.Serves "admin/users" adminUser :=
    ⟨by decide +kernel, [todo], [user], rfl, by decide +kernel⟩
  have hendpoint : adminUser.endpoint = "admin/users" := hs.eq
  have hid : Text.Percent.encode "a/é" = "a%2F%C3%A9" := by decide +kernel
  obtain ⟨-, hmember, hencode⟩ := routes_of_paths duties "/api/" .patch
  obtain ⟨hescapes, hslash⟩ := hencode "a/é"
  have hupdate := (hmember "/api" adminUser "a/é" _ hbase (hendpoint ▸ hs) (by decide) hescapes
    hslash (by rw [hendpoint, hid]; decide +kernel) (.update adminUser "a/é")).2 .update
  rw [hendpoint, hid] at hupdate
  refine ⟨hbase, hs, hupdate, ?_⟩
  refine ((routes_of_paths duties "/api/" .get).1 _ _).2 ⟨"admin/users", ⟨by decide, ?_⟩,
    .collection hs .findAll⟩
  exact ⟨"/api".toList, "admin/users//".toList, hbase, by decide, ⟨2, by decide⟩, by decide⟩

end Route

end ResourceApi
