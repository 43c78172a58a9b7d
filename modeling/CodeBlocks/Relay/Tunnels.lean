import Mathlib.Data.List.Perm.Basic
import Mathlib.Data.List.TakeWhile
import CodeBlocks.Relay.Ledger

/-!
# Tunnels and their clients

What the ledger of the relay has in common in every run: a request belongs to one
connection, a query or a tunnel to one request, and every tunnel is listed under
the name of its connection or was disconnected. From it follow the runs in which
no tunnel outlives its client, and those in which every tunnel leads where the
request said.
-/

namespace CodeBlocks.Relay

/-- An entry of a list that grew at its end. -/
theorem getElem?_concat_eq_some {α : Type} {xs : List α} {i : Nat} {x y : α} :
    (xs ++ [y])[i]? = some x ↔ xs[i]? = some x ∨ i = xs.length ∧ x = y := by
  by_cases hi : i < xs.length
  · rw [List.getElem?_append_left hi]
    exact ⟨Or.inl, fun h => h.elim id fun h => absurd h.1 (by omega)⟩
  · rw [List.getElem?_append_right (by omega), List.getElem?_eq_none (by omega : xs.length ≤ i),
      List.getElem?_singleton]
    split
    · simp only [Option.some.injEq, reduceCtorEq, false_or]
      exact ⟨fun h => ⟨by omega, h.symm⟩, fun h => h.2.symm⟩
    · simp only [reduceCtorEq, false_or, false_iff]
      omega

namespace Ledger

/-- What every run keeps. -/
structure Inv (ledger : Ledger) : Prop where
  seen : ∀ asked ∈ ledger.asked, ledger.status asked.conn ≠ none
  current : ∀ k asked, ledger.asked[k]? = some asked → ledger.status asked.conn = some true →
    ledger.metaOf.lookup asked.conn = some k
  distinct : (ledger.asked.map Asked.conn).Nodup
  owners : (ledger.queries.map QueryData.connMeta ++ ledger.routes.map Route.connMeta).Nodup
  queried : ∀ data ∈ ledger.queries, ∃ asked, ledger.asked[data.connMeta]? = some asked ∧
    data.hostname = cStr asked.hostname
  routed : ∀ route ∈ ledger.routes, ∃ asked, ledger.asked[route.connMeta]? = some asked ∧
    route.conn = asked.conn ∧ route.addr.2 = asked.port
  listed : ∀ name t, ledger.routeOf.lookup name = some t →
    ∃ route, ledger.routes[t]? = some route ∧ route.conn = name
  kept : ∀ t route, ledger.routes[t]? = some route →
    ledger.routeOf.lookup route.conn = some t ∨ .disconnect t ∈ ledger.notes
  parsed : ∀ conn hostname port, .parsed conn hostname port ∈ ledger.notes ↔
    ⟨conn, hostname, port⟩ ∈ ledger.asked
  answered : ∀ hostname result, .answered hostname result ∈ ledger.notes → 0 ∉ hostname

/-- An entry for a request is made by a connection that is up and has made none. -/
def Admits (ledger : Ledger) : Entry → Prop
  | .request name _ _ => ledger.status name = some true ∧ name ∉ ledger.metaOf
  | _ => True

variable {ledger : Ledger}

/-- A C string has no zero byte. -/
theorem zero_notMem_cStr (bytes : List UInt8) : 0 ∉ cStr bytes := by
  intro hmem
  have hne := List.mem_takeWhile_imp hmem
  simp at hne

/-- A connection asks once. -/
theorem Inv.asked_unique (h : ledger.Inv) {k k' : Nat} {asked asked' : Asked}
    (hk : ledger.asked[k]? = some asked) (hk' : ledger.asked[k']? = some asked')
    (hconn : asked.conn = asked'.conn) : k = k' := by
  obtain ⟨hlt, hget⟩ := List.getElem?_eq_some_iff.mp hk
  have hmap : (ledger.asked.map Asked.conn)[k]? = (ledger.asked.map Asked.conn)[k']? := by
    rw [List.getElem?_map, List.getElem?_map, hk, hk', Option.map_some, Option.map_some, hconn]
  exact (List.getElem?_inj (by rwa [List.length_map]) h.distinct).mp hmap

/-- A request without a tunnel has none listed under the name of its connection. -/
theorem Inv.lookup_none (h : ledger.Inv) {k : Nat} {asked : Asked}
    (hk : ledger.asked[k]? = some asked) (hfree : k ∉ ledger.routes.map Route.connMeta) :
    ledger.routeOf.lookup asked.conn = none := by
  cases ht : ledger.routeOf.lookup asked.conn with
  | none => rfl
  | some t =>
      obtain ⟨route, hroute, hname⟩ := h.listed asked.conn t ht
      have hmem := List.mem_of_getElem? hroute
      obtain ⟨asked', hk', hconn, -⟩ := h.routed route hmem
      have heq := h.asked_unique hk hk' (hname.symm.trans hconn)
      exact absurd (List.mem_map.mpr ⟨route, hmem, heq.symm⟩) hfree

/-- The answer to a query that is not open any more. -/
theorem Inv.answer (h : ledger.Inv) {data : QueryData} {asked : Asked} (result : Option Hostent)
    (hasked : ledger.asked[data.connMeta]? = some asked) (hname : 0 ∉ data.hostname)
    (hfree : data.connMeta ∉ ledger.queries.map QueryData.connMeta ++
      ledger.routes.map Route.connMeta) :
    (ledger.answer data result).Inv := by
  have hroutes : data.connMeta ∉ ledger.routes.map Route.connMeta :=
    fun hmem => hfree (List.mem_append_right _ hmem)
  have hnone := h.lookup_none hasked hroutes
  unfold Ledger.answer
  rw [hasked]
  refine ⟨h.seen, h.current, h.distinct, ?_, h.queried, ?_, ?_, ?_, ?_, ?_⟩
  · dsimp only
    rw [List.map_append, ← List.append_assoc]
    exact List.nodup_append'.mpr ⟨h.owners, List.nodup_singleton _, by simpa using hfree⟩
  · intro route hroute
    rcases List.mem_append.mp hroute with hold | hnew
    · exact h.routed route hold
    · rw [List.mem_singleton.mp hnew]
      exact ⟨asked, hasked, rfl, rfl⟩
  · intro name t ht
    dsimp only at ht ⊢
    by_cases hconn : name = asked.conn
    · subst hconn
      rw [AList.lookup_insert, Option.some.injEq] at ht
      exact ⟨_, getElem?_concat_eq_some.mpr (Or.inr ⟨ht.symm, rfl⟩), rfl⟩
    · rw [AList.lookup_insert_ne hconn] at ht
      obtain ⟨route, hroute, hname⟩ := h.listed name t ht
      exact ⟨route, getElem?_concat_eq_some.mpr (Or.inl hroute), hname⟩
  · intro t route hroute
    dsimp only at hroute ⊢
    rcases getElem?_concat_eq_some.mp hroute with hold | ⟨rfl, rfl⟩
    · rcases h.kept t route hold with hlookup | hgone
      · have hne : route.conn ≠ asked.conn := by
          intro heq
          rw [heq, hnone] at hlookup
          cases hlookup
        rw [AList.lookup_insert_ne hne]
        exact Or.inl hlookup
      · exact Or.inr (List.mem_append_left _ hgone)
    · exact Or.inl (AList.lookup_insert _)
  · intro conn hostname port
    rw [← h.parsed]
    simp
  · intro hostname result' hmem
    rcases List.mem_append.mp hmem with hold | hnew
    · exact h.answered hostname result' hold
    · obtain ⟨rfl, -⟩ : hostname = data.hostname ∧ result' = result := by simpa using hnew
      exact hname

/-- A query that is taken off the list belongs to nothing any more. -/
theorem Inv.eraseIdx (h : ledger.Inv) {query : Nat} {data : QueryData}
    (hdata : ledger.queries[query]? = some data) :
    { ledger with queries := ledger.queries.eraseIdx query }.Inv ∧
      data.connMeta ∉ (ledger.queries.eraseIdx query).map QueryData.connMeta ++
        ledger.routes.map Route.connMeta := by
  obtain ⟨hlt, rfl⟩ := List.getElem?_eq_some_iff.mp hdata
  have hperm := (List.getElem_cons_eraseIdx_perm hlt).map QueryData.connMeta
  have howners := (hperm.append_right (ledger.routes.map Route.connMeta)).nodup_iff.mpr h.owners
  rw [List.map_cons, List.cons_append, List.nodup_cons] at howners
  refine ⟨⟨h.seen, h.current, h.distinct, howners.2, ?_, h.routed, h.listed, h.kept, h.parsed,
    h.answered⟩, howners.1⟩
  intro data hmem
  exact h.queried data (List.mem_of_mem_eraseIdx hmem)

/-- An answer to an open query keeps the ledger consistent. -/
theorem Inv.answered_query (h : ledger.Inv) (query : Nat) (result : Option Hostent) :
    (ledger.post (.answer query result)).Inv := by
  simp only [post]
  cases hdata : ledger.queries[query]? with
  | none => exact h
  | some data =>
      obtain ⟨asked, hasked, hname⟩ := h.queried data (List.mem_of_getElem? hdata)
      obtain ⟨herased, hfree⟩ := h.eraseIdx hdata
      have hzero : 0 ∉ data.hostname := by
        rw [hname]
        exact zero_notMem_cStr asked.hostname
      exact herased.answer result hasked hzero hfree

/-- A request of a connection that has made none is written down. -/
theorem Inv.note (h : ledger.Inv) {asked : Asked} (hup : ledger.status asked.conn = some true)
    (hnone : asked.conn ∉ ledger.metaOf) : (ledger.note asked).Inv := by
  have hfresh : ∀ (k : Nat) (other : Asked), ledger.asked[k]? = some other →
      other.conn ≠ asked.conn := by
    intro k other hk hconn
    have hlookup := h.current k other hk (by rwa [hconn])
    rw [hconn] at hlookup
    exact hnone (Table.mem_iff_lookup.mpr ⟨k, hlookup⟩)
  refine ⟨?_, ?_, ?_, h.owners, ?_, ?_, h.listed, ?_, ?_, ?_⟩
  · intro other hother
    rcases List.mem_append.mp hother with hold | hnew
    · exact h.seen other hold
    · rw [List.mem_singleton.mp hnew]
      exact ne_of_eq_of_ne hup (Option.some_ne_none true)
  · intro k other hk hother
    rcases getElem?_concat_eq_some.mp hk with hold | ⟨rfl, rfl⟩
    · unfold Ledger.note
      dsimp only
      rw [AList.lookup_insert_ne (hfresh k other hold)]
      exact h.current k other hold hother
    · exact AList.lookup_insert _
  · unfold Ledger.note
    rw [List.map_append, List.map_singleton, List.nodup_append']
    refine ⟨h.distinct, List.nodup_singleton _, ?_⟩
    rw [List.disjoint_singleton]
    rintro hmem
    obtain ⟨other, hother, hconn⟩ := List.mem_map.mp hmem
    obtain ⟨k, hk⟩ := List.mem_iff_getElem?.mp hother
    exact hfresh k other hk hconn
  · intro data hdata
    obtain ⟨other, hother, hname⟩ := h.queried data hdata
    exact ⟨other, getElem?_concat_eq_some.mpr (Or.inl hother), hname⟩
  · intro route hroute
    obtain ⟨other, hother, hsame⟩ := h.routed route hroute
    exact ⟨other, getElem?_concat_eq_some.mpr (Or.inl hother), hsame⟩
  · intro t route hroute
    exact (h.kept t route hroute).imp id (List.mem_append_left _)
  · intro conn hostname port
    unfold Ledger.note
    rw [List.mem_append, List.mem_append, h.parsed, List.mem_singleton, List.mem_singleton]
    cases asked
    simp
  · intro hostname result hmem
    apply h.answered hostname result
    simpa [Ledger.note] using hmem

/-- The request that is written down is the last one. -/
theorem note_getElem? (ledger : Ledger) (asked : Asked) :
    (ledger.note asked).asked[ledger.asked.length]? = some asked :=
  getElem?_concat_eq_some.mpr (Or.inr ⟨rfl, rfl⟩)

/-- Nothing belongs yet to the request that comes next. -/
theorem Inv.length_notMem_owners (h : ledger.Inv) :
    ledger.asked.length ∉ ledger.queries.map QueryData.connMeta ++
      ledger.routes.map Route.connMeta := by
  intro hmem
  rcases List.mem_append.mp hmem with hquery | hroute
  · obtain ⟨data, hdata, hlen⟩ := List.mem_map.mp hquery
    obtain ⟨asked, hasked, -⟩ := h.queried data hdata
    rw [hlen, List.getElem?_eq_none le_rfl] at hasked
    cases hasked
  · obtain ⟨route, hroute, hlen⟩ := List.mem_map.mp hroute
    obtain ⟨asked, hasked, -⟩ := h.routed route hroute
    rw [hlen, List.getElem?_eq_none le_rfl] at hasked
    cases hasked

/-- So does a request of a connection that is up and has asked for nothing yet. -/
theorem Inv.request (h : ledger.Inv) {name : String} (hup : ledger.status name = some true)
    (hnone : name ∉ ledger.metaOf) (request : Request) (answer : Option (Option Hostent)) :
    (ledger.request name request answer).Inv := by
  have hget := ledger.note_getElem? ⟨name, request.hostname, request.port⟩
  have hnote : (ledger.note ⟨name, request.hostname, request.port⟩).Inv := h.note hup hnone
  have hfree := h.length_notMem_owners
  unfold Ledger.request
  cases answer with
  | none =>
      refine ⟨hnote.seen, hnote.current, hnote.distinct, ?_, ?_, hnote.routed, hnote.listed,
        hnote.kept, hnote.parsed, hnote.answered⟩
      · dsimp only
        rw [List.map_append, List.append_assoc, List.map_singleton, List.singleton_append,
          List.nodup_middle, List.nodup_cons]
        exact ⟨hfree, h.owners⟩
      · intro data hdata
        rcases List.mem_append.mp hdata with hold | hnew
        · exact hnote.queried data hold
        · rw [List.mem_singleton.mp hnew]
          exact ⟨_, hget, rfl⟩
  | some result => exact hnote.answer result hget (zero_notMem_cStr request.hostname) hfree

/-- A connection that goes down. What is listed under its name is disconnected, or stays. -/
theorem Inv.down (h : ledger.Inv) (name : String) : (ledger.down name).Inv := by
  have hseen : ∀ asked ∈ ledger.asked,
      Function.update ledger.status name (some false) asked.conn ≠ none := by
    intro asked hasked
    by_cases hconn : asked.conn = name
    · rw [hconn, Function.update_self]
      exact Option.some_ne_none false
    · rw [Function.update_of_ne hconn]
      exact h.seen asked hasked
  have hcurrent : ∀ k asked, ledger.asked[k]? = some asked →
      Function.update ledger.status name (some false) asked.conn = some true →
      asked.conn ≠ name ∧ ledger.metaOf.lookup asked.conn = some k := by
    intro k asked hk hup
    by_cases hconn : asked.conn = name
    · rw [hconn, Function.update_self] at hup
      cases hup
    · rw [Function.update_of_ne hconn] at hup
      exact ⟨hconn, h.current k asked hk hup⟩
  have herased : ∀ k asked, ledger.asked[k]? = some asked →
      Function.update ledger.status name (some false) asked.conn = some true →
      (ledger.metaOf.erase name).lookup asked.conn = some k := by
    intro k asked hk hup
    obtain ⟨hconn, hlookup⟩ := hcurrent k asked hk hup
    rwa [AList.lookup_erase_ne hconn]
  unfold Ledger.down
  dsimp only
  split
  · cases hroute : ledger.routeOf.lookup name with
    | none =>
        exact ⟨hseen, herased, h.distinct, h.owners, h.queried, h.routed, h.listed, h.kept,
          h.parsed, h.answered⟩
    | some route =>
        refine ⟨hseen, herased, h.distinct, h.owners, h.queried, h.routed, ?_, ?_, ?_, ?_⟩
        · intro other t ht
          dsimp only at ht
          rw [Table.lookup_erase_eq] at ht
          split at ht
          · cases ht
          · exact h.listed other t ht
        · intro t other hother
          dsimp only
          rcases h.kept t other hother with hlookup | hgone
          · by_cases hconn : other.conn = name
            · rw [hconn, hroute, Option.some.injEq] at hlookup
              rw [hlookup]
              exact Or.inr (List.mem_append_right _ (List.mem_singleton.mpr rfl))
            · rw [AList.lookup_erase_ne hconn]
              exact Or.inl hlookup
          · exact Or.inr (List.mem_append_left _ hgone)
        · intro conn hostname port
          rw [← h.parsed]
          simp
        · intro hostname result hmem
          apply h.answered hostname result
          simpa using hmem
  · exact ⟨hseen, fun k asked hk hup => (hcurrent k asked hk hup).2, h.distinct, h.owners,
      h.queried, h.routed, h.listed, h.kept, h.parsed, h.answered⟩

/-- A connection that comes up has asked for nothing. -/
theorem Inv.up (h : ledger.Inv) {name : String} (hnew : ledger.status name = none) :
    Inv { ledger with status := Function.update ledger.status name (some true) } := by
  have hne : ∀ asked ∈ ledger.asked, asked.conn ≠ name := by
    intro asked hasked hconn
    exact h.seen asked hasked (by rw [hconn, hnew])
  refine ⟨?_, ?_, h.distinct, h.owners, h.queried, h.routed, h.listed, h.kept, h.parsed,
    h.answered⟩
  · intro asked hasked
    dsimp only
    rw [Function.update_of_ne (hne asked hasked)]
    exact h.seen asked hasked
  · intro k asked hk hup
    dsimp only at hup
    rw [Function.update_of_ne (hne asked (List.mem_of_getElem? hk))] at hup
    exact h.current k asked hk hup

/-- Every entry keeps the ledger in order. -/
theorem Inv.post (h : ledger.Inv) {entry : Entry} (hentry : ledger.Admits entry) :
    (ledger.post entry).Inv := by
  cases entry with
  | up name =>
      simp only [Ledger.post]
      split
      · rename_i hnew
        exact h.up hnew
      · exact h
  | down name =>
      simp only [Ledger.post]
      split
      · exact h.down name
      · exact h
  | request name request answer => exact h.request hentry.1 hentry.2 request answer
  | answer query result => exact h.answered_query query result
  | idle => exact h

/-- Every tunnel that is listed belongs to a connection that is up and has metadata. -/
def Live (ledger : Ledger) : Prop :=
  ∀ name ∈ ledger.routeOf, ledger.status name = some true ∧ name ∈ ledger.metaOf

/-- A query is answered while the connection that asked is up. -/
def Prompt (ledger : Ledger) : Entry → Prop
  | .answer query _ => ∀ data asked, ledger.queries[query]? = some data →
    ledger.asked[data.connMeta]? = some asked → ledger.status asked.conn = some true
  | _ => True

/-- An answer lists a tunnel under the name of the connection that asked. -/
theorem live_answer_iff (hlive : ledger.Live) {data : QueryData} {asked : Asked}
    (result : Option Hostent) (hasked : ledger.asked[data.connMeta]? = some asked)
    (hmeta : ledger.status asked.conn = some true → asked.conn ∈ ledger.metaOf) :
    (ledger.answer data result).Live ↔ ledger.status asked.conn = some true := by
  unfold Ledger.answer
  rw [hasked]
  constructor
  · intro h
    exact (h asked.conn (AList.mem_insert _ |>.mpr (Or.inl rfl))).1
  · intro hup name hname
    rcases (AList.mem_insert _).mp hname with rfl | hold
    · exact ⟨hup, hmeta hup⟩
    · exact hlive name hold

/-- A connection that has asked and is up has metadata. -/
theorem Inv.mem_metaOf (h : ledger.Inv) {k : Nat} {asked : Asked}
    (hk : ledger.asked[k]? = some asked) (hup : ledger.status asked.conn = some true) :
    asked.conn ∈ ledger.metaOf :=
  Table.mem_iff_lookup.mpr ⟨k, h.current k asked hk hup⟩

/-- A connection that comes up disturbs no tunnel. -/
theorem Live.up (hlive : ledger.Live) (name : String) :
    Live { ledger with status := Function.update ledger.status name (some true) } := by
  intro other hother
  obtain ⟨hup, hmeta⟩ := hlive other hother
  refine ⟨?_, hmeta⟩
  dsimp only
  by_cases hname : other = name
  · rw [hname, Function.update_self]
  · rwa [Function.update_of_ne hname]

/-- The tunnel of a connection that goes down is taken off the list. -/
theorem Live.down (hlive : ledger.Live) (name : String) : (ledger.down name).Live := by
  have hother : ∀ other ∈ ledger.routeOf, other ≠ name →
      Function.update ledger.status name (some false) other = some true ∧
        other ∈ ledger.metaOf.erase name := by
    intro other hmem hne
    obtain ⟨hup, hmeta⟩ := hlive other hmem
    rw [Function.update_of_ne hne, AList.mem_erase]
    exact ⟨hup, hne, hmeta⟩
  unfold Ledger.down
  dsimp only
  split
  · cases hroute : ledger.routeOf.lookup name with
    | none =>
        intro other hmem
        apply hother other hmem
        rintro rfl
        exact AList.lookup_eq_none.mp hroute hmem
    | some route =>
        intro other hmem
        obtain ⟨hne, hold⟩ := AList.mem_erase.mp hmem
        exact hother other hold hne
  · rename_i hnone
    intro other hmem
    have hne : other ≠ name := by
      rintro rfl
      exact hnone (hlive other hmem).2
    exact ⟨(hother other hmem hne).1, (hlive other hmem).2⟩

/-- An answer that comes at once finds its connection up. -/
theorem Live.request (hlive : ledger.Live) {name : String}
    (hup : ledger.status name = some true) (request : Request)
    (answer : Option (Option Hostent)) : (ledger.request name request answer).Live := by
  have hnote : (ledger.note ⟨name, request.hostname, request.port⟩).Live := by
    intro other hmem
    obtain ⟨hother, hmeta⟩ := hlive other hmem
    exact ⟨hother, (AList.mem_insert _).mpr (Or.inr hmeta)⟩
  have hget := ledger.note_getElem? ⟨name, request.hostname, request.port⟩
  unfold Ledger.request
  cases answer with
  | none => exact hnote
  | some result =>
      have hmeta : name ∈ (ledger.note ⟨name, request.hostname, request.port⟩).metaOf :=
        (AList.mem_insert _).mpr (Or.inl rfl)
      exact (@live_answer_iff _ hnote ⟨_, _⟩ _ result hget fun _ => hmeta).mpr hup

/-- Only an answer that comes too late lists a tunnel without a client. -/
theorem Inv.live_post_iff (h : ledger.Inv) (hlive : ledger.Live) {entry : Entry}
    (hentry : ledger.Admits entry) : (ledger.post entry).Live ↔ ledger.Prompt entry := by
  cases entry with
  | up name =>
      refine iff_of_true ?_ trivial
      simp only [Ledger.post]
      split
      · exact hlive.up name
      · exact hlive
  | down name =>
      refine iff_of_true ?_ trivial
      simp only [Ledger.post]
      split
      · exact hlive.down name
      · exact hlive
  | request name request answer =>
      exact iff_of_true (hlive.request hentry.1 request answer) trivial
  | answer query result =>
      simp only [Ledger.post, Prompt]
      cases hdata : ledger.queries[query]? with
      | none => simp [hlive]
      | some data =>
          obtain ⟨asked, hasked, -⟩ := h.queried data (List.mem_of_getElem? hdata)
          have hiff := @live_answer_iff { ledger with queries := ledger.queries.eraseIdx query }
            hlive data asked result hasked (h.mem_metaOf hasked)
          simp only [hiff, Option.some.injEq]
          constructor
          · rintro hup _ other rfl hother
            rw [hasked, Option.some.injEq] at hother
            rwa [← hother]
          · intro hprompt
            exact hprompt data asked rfl hasked
  | idle => exact iff_of_true hlive trivial

/-- Every tunnel leads to an address that was given for the host name of its connection's
request, and to the port of that request. -/
def Sent (ledger : Ledger) : Prop :=
  ∀ route ∈ ledger.routes, ∃ hostname, .parsed route.conn hostname route.addr.2 ∈ ledger.notes ∧
    .answered hostname (some ⟨route.addr.1⟩) ∈ ledger.notes

/-- An entry that brings the failure of a query. -/
def Fails (ledger : Ledger) : Entry → Prop
  | .answer query result => result = none ∧ query < ledger.queries.length
  | .request _ _ answer => answer = some none
  | _ => False

/-- An answer is a success, and C reads the host name that was asked for to its end. -/
def Good (ledger : Ledger) : Entry → Prop
  | .answer query result => ∀ data asked, ledger.queries[query]? = some data →
    ledger.asked[data.connMeta]? = some asked → result.isSome ∧ 0 ∉ asked.hostname
  | .request _ request (some result) => result.isSome ∧ 0 ∉ request.hostname
  | _ => True

/-- Bytes without a zero are their own C string. -/
theorem cStr_eq_self {bytes : List UInt8} (h : 0 ∉ bytes) : cStr bytes = bytes := by
  unfold cStr
  rw [List.takeWhile_eq_self_iff]
  intro b hb
  simp only [decide_eq_true_eq]
  rintro rfl
  exact h hb

/-- What was noted stays noted. -/
theorem Sent.mono {ledger' : Ledger} (hsent : ledger.Sent)
    (hroutes : ledger'.routes = ledger.routes) (hnotes : ledger.notes ⊆ ledger'.notes) :
    ledger'.Sent := by
  intro route hroute
  rw [hroutes] at hroute
  obtain ⟨hostname, hparsed, hanswered⟩ := hsent route hroute
  exact ⟨hostname, hnotes hparsed, hnotes hanswered⟩

/-- A tunnel leads where the request said exactly when its query succeeded and asked for the whole
host name. -/
theorem Inv.sent_answer_iff (h : ledger.Inv) (hsent : ledger.Sent) {data : QueryData}
    {asked : Asked} (result : Option Hostent) (hasked : ledger.asked[data.connMeta]? = some asked)
    (hname : data.hostname = cStr asked.hostname)
    (hfree : data.connMeta ∉ ledger.queries.map QueryData.connMeta ++
      ledger.routes.map Route.connMeta) :
    ((ledger.answer data result).Sent ∧
      (result = none → (ledger.answer data result).routes.length = ledger.routes.length)) ↔
    result.isSome ∧ 0 ∉ asked.hostname := by
  have hzero : 0 ∉ data.hostname := by
    rw [hname]
    exact zero_notMem_cStr asked.hostname
  have hinv := h.answer result hasked hzero hfree
  have hanswer : ledger.answer data result = { ledger with
      routes := ledger.routes ++ [⟨data.connMeta, asked.conn, (addressOf result, asked.port)⟩]
      routeOf := AList.insert asked.conn ledger.routes.length ledger.routeOf
      notes := ledger.notes ++
        [.answered data.hostname result, .connect asked.conn (addressOf result) asked.port] } := by
    unfold Ledger.answer
    rw [hasked]
  constructor
  · rintro ⟨hroutes, hfails⟩
    refine ⟨?_, ?_⟩
    · cases result with
      | none =>
          rw [hanswer] at hfails
          simp at hfails
      | some hostent => rfl
    · have hnew : (⟨data.connMeta, asked.conn, (addressOf result, asked.port)⟩ : Route) ∈
          (ledger.answer data result).routes := by
        rw [hanswer]
        exact List.mem_append_right _ (List.mem_singleton.mpr rfl)
      obtain ⟨hostname, hparsed, hanswered⟩ := hroutes _ hnew
      have hwhole := hinv.answered hostname _ hanswered
      -- the connection asked for nothing else
      obtain ⟨k, hk⟩ := List.mem_iff_getElem?.mp ((hinv.parsed _ _ _).mp hparsed)
      rw [hanswer] at hk
      have heq := h.asked_unique hk hasked rfl
      rw [heq, hasked, Option.some.injEq] at hk
      rwa [hk]
  · rintro ⟨hresult, hwhole⟩
    obtain ⟨hostent, rfl⟩ := Option.isSome_iff_exists.mp hresult
    refine ⟨?_, fun hfails => absurd hfails (Option.some_ne_none hostent)⟩
    rw [hanswer]
    intro route hroute
    rcases List.mem_append.mp hroute with hold | hnew
    · obtain ⟨hostname, hparsed, hanswered⟩ := hsent route hold
      exact ⟨hostname, List.mem_append_left _ hparsed, List.mem_append_left _ hanswered⟩
    · rw [List.mem_singleton.mp hnew]
      refine ⟨asked.hostname, List.mem_append_left _ ?_, List.mem_append_right _ ?_⟩
      · exact (h.parsed _ _ _).mpr (List.mem_of_getElem? hasked)
      · rw [hname, cStr_eq_self hwhole]
        exact List.mem_cons_self

/-- A connection that goes down opens no tunnel. -/
theorem Sent.down (hsent : ledger.Sent) (name : String) : (ledger.down name).Sent := by
  unfold Ledger.down
  dsimp only
  split
  · split
    · exact hsent
    · exact hsent.mono rfl (List.subset_append_left _ _)
  · exact hsent

/-- Only a failed query, or a host name that C cuts short, sends a tunnel elsewhere. -/
theorem Inv.sent_post_iff (h : ledger.Inv) (hsent : ledger.Sent) {entry : Entry}
    (hentry : ledger.Admits entry) :
    ((ledger.post entry).Sent ∧
      (ledger.Fails entry → (ledger.post entry).routes.length = ledger.routes.length)) ↔
    ledger.Good entry := by
  cases entry with
  | up name =>
      refine iff_of_true ⟨?_, False.elim⟩ trivial
      simp only [Ledger.post]
      split
      · exact hsent.mono rfl (List.Subset.refl _)
      · exact hsent
  | down name =>
      refine iff_of_true ⟨?_, False.elim⟩ trivial
      simp only [Ledger.post]
      split
      · exact hsent.down name
      · exact hsent
  | request name request answer =>
      cases answer with
      | none =>
          refine iff_of_true ⟨?_, by simp [Fails]⟩ trivial
          exact hsent.mono rfl (List.subset_append_left _ _)
      | some result =>
          have hnote : (ledger.note ⟨name, request.hostname, request.port⟩).Inv :=
            h.note hentry.1 hentry.2
          have hnoted : (ledger.note ⟨name, request.hostname, request.port⟩).Sent :=
            hsent.mono rfl (List.subset_append_left _ _)
          have hget := ledger.note_getElem? ⟨name, request.hostname, request.port⟩
          have hiff := @Inv.sent_answer_iff _ hnote hnoted
            ⟨cStr request.hostname, ledger.asked.length⟩ _ result hget rfl h.length_notMem_owners
          simp only [Fails, Good, Option.some.injEq]
          exact hiff
  | answer query result =>
      simp only [Ledger.post, Good, Fails]
      cases hdata : ledger.queries[query]? with
      | none => simp [hsent]
      | some data =>
          obtain ⟨asked, hasked, hname⟩ := h.queried data (List.mem_of_getElem? hdata)
          obtain ⟨herased, hfree⟩ := h.eraseIdx hdata
          have hlt : query < ledger.queries.length := (List.getElem?_eq_some_iff.mp hdata).1
          have hiff := herased.sent_answer_iff hsent result hasked hname hfree
          simp only [hlt, and_true, Option.some.injEq]
          rw [hiff]
          constructor
          · rintro hgood _ other rfl hother
            rw [hasked, Option.some.injEq] at hother
            rwa [← hother]
          · intro hgood
            exact hgood data asked rfl hasked
  | idle => exact iff_of_true ⟨hsent, False.elim⟩ trivial

end Ledger

variable {cipher : StreamCipher}

namespace TCPRelayServer

variable {server : TCPRelayServer cipher}

/-- The connection of that name is up. -/
def Up (server : TCPRelayServer cipher) (name : String) : Prop :=
  ∃ conn, server.conns.lookup name = some conn ∧ conn.connected = true

/-- Every tunnel in the table belongs to a connection that is up and has metadata, and every
tunnel whose connection is not up was disconnected and removed. -/
structure TunnelsUp (server : TCPRelayServer cipher) : Prop where
  keys : ∀ name ∈ server.localTunnelList, server.Up name ∧ name ∈ server.localMetaList
  gone : ∀ t tunnel, server.tunnels[t]? = some tunnel → ¬ server.Up tunnel.serverConn →
    tunnel.serverConn ∉ server.localTunnelList ∧ .disconnect t ∈ server.effects

/-- A query is answered while the connection whose request it serves is up. -/
def AnswersUp (server : TCPRelayServer cipher) : RelayEvent → Prop
  | .answer query _ => ∀ data m, server.queries[query]? = some data →
    server.metas[data.connMeta]? = some m → server.Up m.conn
  | _ => True

/-- A connection is up when the ledger says so. -/
theorem up_iff_status {name : String} : server.Up name ↔ server.ledger.status name = some true := by
  exact Option.map_eq_some_iff.symm

/-- The entries of a server are those that its ledger admits. -/
theorem ledger_admits (event : RelayEvent) : server.ledger.Admits (server.entry event) := by
  cases event with
  | read name bytes answer =>
      simp only [entry]
      cases hrequest : server.completed name bytes with
      | none => trivial
      | some request =>
          unfold completed at hrequest
          split at hrequest
          · cases hrequest
          · rename_i conn hconn
            dsimp only at hrequest
            split at hrequest
            · rename_i hread
              exact ⟨up_iff_status.mp ⟨conn, hconn, hread.1.1⟩, hread.2.1⟩
            · cases hrequest
  | up name => trivial
  | down name => trivial
  | answer query result => trivial
  | targetUp t => trivial
  | targetDown t => trivial

/-- Every step of the server keeps the ledger consistent. -/
theorem ledger_inv_step (h : server.ledger.Inv) (event : RelayEvent) :
    (server.step event).ledger.Inv := by
  rw [ledger_step]
  exact h.post (ledger_admits event)

/-- The tunnels match the connections exactly when the routes of the ledger do. -/
theorem tunnelsUp_iff_live (h : server.ledger.Inv) : server.TunnelsUp ↔ server.ledger.Live := by
  constructor
  · intro hup name hname
    obtain ⟨hconn, hmeta⟩ := hup.keys name hname
    exact ⟨up_iff_status.mp hconn, hmeta⟩
  · intro hlive
    refine ⟨fun name hname => ?_, fun t tunnel ht hdown => ?_⟩
    · obtain ⟨hconn, hmeta⟩ := hlive name hname
      exact ⟨up_iff_status.mpr hconn, hmeta⟩
    · have hnone : tunnel.serverConn ∉ server.localTunnelList :=
        fun hmem => hdown (up_iff_status.mpr (hlive _ hmem).1)
      refine ⟨hnone, ?_⟩
      have hroute : server.ledger.routes[t]? = some tunnel.route := by
        simp only [ledger, List.getElem?_map, ht, Option.map_some]
      rcases h.kept t tunnel.route hroute with hlookup | hgone
      · exact absurd (Table.mem_iff_lookup.mpr ⟨t, hlookup⟩) hnone
      · exact List.mem_of_mem_filter hgone

/-- An answer comes while its connection is up exactly when its entry is prompt. -/
theorem prompt_iff_answersUp (event : RelayEvent) :
    server.ledger.Prompt (server.entry event) ↔ server.AnswersUp event := by
  cases event with
  | answer query result =>
      simp only [entry, Ledger.Prompt, AnswersUp, ledger, List.getElem?_map]
      constructor
      · intro h data m hdata hm
        exact up_iff_status.mpr (h data m.asked hdata (by rw [hm, Option.map_some]))
      · intro h data asked hdata hasked
        obtain ⟨m, hm, rfl⟩ := Option.map_eq_some_iff.mp hasked
        exact up_iff_status.mp (h data m hdata hm)
  | read name bytes answer =>
      simp only [entry]
      cases server.completed name bytes <;> exact Iff.rfl
  | _ => exact Iff.rfl

/-- The ledger of a fresh server is consistent. -/
theorem ledger_inv_empty : ({} : TCPRelayServer cipher).ledger.Inv := by
  constructor <;> simp [ledger]

/-- In the runs of a relay, no tunnel outlives its client exactly when every query is answered
before its client has gone away. -/
theorem tunnelsUp_iff (events : List RelayEvent) :
    Along step (fun server event => (server.step event).TunnelsUp)
      ({} : TCPRelayServer cipher) events ↔
    Along step AnswersUp ({} : TCPRelayServer cipher) events := by
  have hempty : ({} : TCPRelayServer cipher).TunnelsUp := by
    constructor <;> simp
  refine Along.congr_of_invariant
    (I := fun server : TCPRelayServer cipher => server.ledger.Inv ∧ server.TunnelsUp) ?_ ?_
    ⟨ledger_inv_empty, hempty⟩ events
  · rintro server event ⟨hinv, hup⟩
    have hlive := (tunnelsUp_iff_live hinv).mp hup
    rw [tunnelsUp_iff_live (ledger_inv_step hinv event), ledger_step,
      hinv.live_post_iff hlive (ledger_admits event), prompt_iff_answersUp]
  · rintro server event hup ⟨hinv, -⟩
    exact ⟨ledger_inv_step hinv event, hup⟩

/-- A client that closes before its host name is resolved. -/
def hangUpRun : List RelayEvent :=
  [.up "client", .read "client" (sampleIv ++ sampleBytes) none, .down "client",
    .answer 0 (some ⟨16777343⟩)]

/-- The answer that comes after the client has gone away leaves a tunnel behind. -/
theorem not_tunnelsUp_hangUpRun :
    ¬ (hangUpRun.foldl step ({} : TCPRelayServer sampleCipher)).TunnelsUp := by
  intro h
  have hmem : "client" ∈
      (hangUpRun.foldl step ({} : TCPRelayServer sampleCipher)).localTunnelList := by
    decide +kernel
  obtain ⟨hup, -⟩ := h.keys "client" hmem
  have hdown : (hangUpRun.foldl step ({} : TCPRelayServer sampleCipher)).ledger.status "client" =
      some false := by
    decide +kernel
  rw [up_iff_status, hdown] at hup
  cases hup

/-- Every tunnel leads to an address that an answer gave for the host name in the request of its
connection, and to the port in that request. -/
def TunnelsSent (server : TCPRelayServer cipher) : Prop :=
  ∀ tunnel ∈ server.tunnels, ∃ hostname,
    .parsed tunnel.serverConn hostname tunnel.serverAddr.2 ∈ server.effects ∧
      .answered hostname (some ⟨tunnel.serverAddr.1⟩) ∈ server.effects

/-- An event that brings the failure of a query. -/
def QueryFails (server : TCPRelayServer cipher) : RelayEvent → Prop
  | .answer query result => result = none ∧ query < server.queries.length
  | .read name bytes answer => answer = some none ∧ server.completed name bytes ≠ none
  | _ => False

/-- The tunnels after an event lead where the requests said, and none was opened for a query that
failed. -/
def SendsRight (server : TCPRelayServer cipher) (event : RelayEvent) : Prop :=
  (server.step event).TunnelsSent ∧
    (server.QueryFails event → (server.step event).tunnels.length = server.tunnels.length)

/-- Every query that is answered succeeds, and was made for a host name without a zero byte. -/
def AnswersGood (server : TCPRelayServer cipher) : RelayEvent → Prop
  | .answer query result => ∀ data m, server.queries[query]? = some data →
    server.metas[data.connMeta]? = some m → result.isSome ∧ 0 ∉ m.dstHostname
  | .read name bytes (some result) => ∀ request, server.completed name bytes = some request →
    result.isSome ∧ 0 ∉ request.hostname
  | _ => True

/-- The tunnels lead to the right hosts exactly when the routes of the ledger do. -/
theorem tunnelsSent_iff_sent : server.TunnelsSent ↔ server.ledger.Sent := by
  simp [TunnelsSent, Ledger.Sent, ledger, Tunnel.route, RelayEffect.isNote]

/-- Each tunnel has one route. -/
theorem routes_length : server.ledger.routes.length = server.tunnels.length := List.length_map _

/-- An event fails a query exactly when its entry does. -/
theorem fails_iff_queryFails (event : RelayEvent) :
    server.ledger.Fails (server.entry event) ↔ server.QueryFails event := by
  cases event with
  | read name bytes answer =>
      simp only [entry, QueryFails]
      cases server.completed name bytes <;> simp [Ledger.Fails]
  | _ => exact Iff.rfl

/-- The answers of an event are good exactly when its entry is. -/
theorem good_iff_answersGood (event : RelayEvent) :
    server.ledger.Good (server.entry event) ↔ server.AnswersGood event := by
  cases event with
  | read name bytes answer =>
      simp only [entry]
      cases answer with
      | none => cases server.completed name bytes <;> exact Iff.rfl
      | some result =>
          simp only [AnswersGood]
          cases server.completed name bytes <;> simp [Ledger.Good]
  | answer query result =>
      simp only [entry, Ledger.Good, AnswersGood, ledger, List.getElem?_map]
      constructor
      · intro h data m hdata hm
        exact h data m.asked hdata (by rw [hm, Option.map_some])
      · intro h data asked hdata hasked
        obtain ⟨m, hm, rfl⟩ := Option.map_eq_some_iff.mp hasked
        exact h data m hdata hm
  | _ => exact Iff.rfl

/-- In the runs of a relay, every tunnel leads where the request said exactly when every query that
is answered succeeds and was made for a host name without a zero byte. -/
theorem sendsRight_iff (events : List RelayEvent) :
    Along step SendsRight ({} : TCPRelayServer cipher) events ↔
      Along step AnswersGood ({} : TCPRelayServer cipher) events := by
  have hempty : ({} : TCPRelayServer cipher).TunnelsSent := by
    simp [TunnelsSent]
  refine Along.congr_of_invariant
    (I := fun server : TCPRelayServer cipher => server.ledger.Inv ∧ server.TunnelsSent) ?_ ?_
    ⟨ledger_inv_empty, hempty⟩ events
  · rintro server event ⟨hinv, hsent⟩
    rw [SendsRight, tunnelsSent_iff_sent, ← routes_length, ← routes_length, ledger_step,
      ← fails_iff_queryFails, ← good_iff_answersGood]
    exact hinv.sent_post_iff (tunnelsSent_iff_sent.mp hsent) (ledger_admits event)
  · rintro server event hright ⟨hinv, -⟩
    exact ⟨ledger_inv_step hinv event, hright.1⟩

/-- A client whose host name cannot be resolved. -/
def unresolvedRun : List RelayEvent :=
  [.up "client", .read "client" (sampleIv ++ sampleBytes) none, .answer 0 none]

/-- The failed query opens a tunnel to the address zero. -/
theorem not_sendsRight_unresolvedRun :
    ¬ Along step SendsRight ({} : TCPRelayServer sampleCipher) unresolvedRun := by
  rintro ⟨-, -, ⟨-, hfails⟩, -⟩
  have hlen := hfails ⟨rfl, by decide +kernel⟩
  revert hlen
  decide +kernel

end TCPRelayServer

end CodeBlocks.Relay
