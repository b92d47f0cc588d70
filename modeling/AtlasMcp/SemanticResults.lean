import AtlasMcp.ComposedTools

/-!
# What a semantic search shows

`semantic_search` makes three calls at most, each of what the one before has found, and joins
the matches with the rows of Postgres by the texts of their ids.

The rows are first put under their ids, where a later row takes the place of an earlier one, so
a match is shown with the last row that has its id (`dictGet_of_byId`).  `results_of_talk` puts
this together: the results are the answers of the vector search, one by one and in their order,
whichever rows come back.
-/

namespace Server

open PyJson PyText Errors Dialogues

variable {F : Type}

/-- What a dictionary has under the key, and nothing for another value. -/
def memberOf (v : Value F) (key : String) : Value F :=
  match v with
  | .dict kvs => (dictGet kvs key).getD .none
  | _ => .none

section Members

variable {v x : PyValue F} {key : String}

/-- What `get` returns is the member of that name, and `None` where there is
none. -/
theorem memberOf_of_get (h : v.get key .none = .ok x) : memberOf v.val key = x.val := by
  obtain ⟨w, hw⟩ := v
  cases w with
  | dict kvs =>
      obtain rfl := Except.ok.inj h
      have hget := PyDict.map_get? (⟨kvs, hw⟩ : PyDict F) key
      change (dictGet kvs key).getD .none = _
      rw [← hget]
      cases PyDict.get? (⟨kvs, hw⟩ : PyDict F) key <;> rfl
  | _ => cases h

/-- What `item` returns is the member of that name; without one it raises. -/
theorem memberOf_of_item (h : v.item key = .ok x) : memberOf v.val key = x.val := by
  obtain ⟨w, hw⟩ := v
  cases w with
  | dict kvs =>
      have hget := PyDict.map_get? (⟨kvs, hw⟩ : PyDict F) key
      change (dictGet kvs key).getD .none = _
      rw [← hget]
      cases hfound : PyDict.get? (⟨kvs, hw⟩ : PyDict F) key with
      | none => simp [PyValue.item, PyValue.asDict?, hfound] at h
      | some y =>
          obtain rfl : y = x := by simpa [PyValue.item, PyValue.asDict?, hfound] using h
          rfl
  | _ => cases h

/-- Going through a list gives the list. -/
theorem eq_of_iter {xs ys : List (PyValue F)} (hv : v.val = .list (xs.map Subtype.val))
    (h : v.iter = .ok ys) : ys = xs := by
  obtain ⟨zs, hzs, hmap⟩ := PyValue.iter_of_list hv
  obtain rfl := Except.ok.inj (hzs.symm.trans h)
  exact List.map_injective_iff.mpr Subtype.val_injective hmap

end Members

/-- Lists that are related member by member, through a third one. -/
theorem forall₂_through {α β γ : Type} {R : α → β → Prop} {S : β → γ → Prop} {T : α → γ → Prop}
    {xs : List α} {ys : List β} {zs : List γ} (hxs : List.Forall₂ R xs ys)
    (hys : List.Forall₂ S ys zs) (h : ∀ a b c, R a b → S b c → T a c) :
    List.Forall₂ T xs zs := by
  induction hxs generalizing zs with
  | nil =>
      cases hys
      exact .nil
  | cons hx _ ih =>
      cases hys with
      | cons hy hys => exact .cons (h _ _ _ hx hy) (ih hys)

/-- The model of the query keeps its parameters and its limit as they are. -/
theorem PostgresQueryInput.eq_of_build [UnicodeDb] {sql : String} {params : List (Value F)}
    {maxRows : ℤ} {query : PostgresQueryInput F}
    (h : PostgresQueryInput.build sql params maxRows = .ok query) :
    query = { sql := query.sql, params, maxRows } := by
  unfold PostgresQueryInput.build at h
  split at h
  · split at h
    · obtain rfl := Except.ok.inj h
      rfl
    · cases h
  · cases h

/-- The model of the search keeps its fields as they are. -/
theorem VectorSearchInput.eq_of_build {collection : String} {vector : List F} {topK : ℤ}
    {search : VectorSearchInput F}
    (h : VectorSearchInput.build collection vector topK = .ok search) :
    search = { collection, vector, topK } := by
  unfold VectorSearchInput.build at h
  split at h
  · exact (Except.ok.inj h).symm
  · cases h

/-- The first vector of several is the first one of the list. -/
theorem eq_cons_of_firstVector {vectors : List (List F)} {vector : List F}
    (h : firstVector vectors = .ok vector) : ∃ others, vectors = vector :: others := by
  cases vectors with
  | nil => cases h
  | cons first others =>
      obtain rfl := Except.ok.inj h
      exact ⟨others, rfl⟩

/-- What the embedder has returned was asked of it and was answered so. -/
theorem mem_of_talk_embedded {query : String}
    {l : List (Exchange (BackendCall F) (BackendAnswer F))} {vectors : List (List F)}
    (h : Program.Talk (embedded query) l (.ok vectors)) : ⟨.embed [query], .ok vectors⟩ ∈ l := by
  obtain ⟨reply, rfl, hreply⟩ := Program.talk_asking_iff.mp h
  cases reply with
  | error failure => cases hreply
  | ok embeddings =>
      obtain rfl := Except.ok.inj hreply
      exact List.mem_singleton_self _

namespace SemanticSearchTool

/-- The metadata of a payload are its members but for the text. -/
theorem metadataOf_ok {payload metadata : PyValue F} (h : metadataOf payload = .ok metadata) :
    ∃ kvs, payload.val = .dict kvs ∧ metadata.val = .dict (kvs.filter (·.1 ≠ "text")) := by
  obtain ⟨w, hw⟩ := payload
  cases w with
  | dict kvs =>
      obtain rfl := Except.ok.inj h
      exact ⟨kvs, rfl, rfl⟩
  | _ => cases h

section Results

variable [PyFloat F]

/-- The payload of an answer, or an empty one. -/
def payloadOf (answer : PyValue F) : Value F :=
  if (memberOf answer.val "payload").truthy then memberOf answer.val "payload" else .dict []

/-- A result keeps the id and the score of the answer, and of its payload all
but the text. -/
structure Shows (answer shown : PyValue F) : Prop where
  id : memberOf shown.val "id" = memberOf answer.val "id"
  score : memberOf shown.val "score" = memberOf answer.val "score"
  metadata : ∃ kvs, payloadOf answer = .dict kvs ∧
    memberOf shown.val "metadata" = .dict (kvs.filter (·.1 ≠ "text"))

/-- Without documents a result has the first characters of the text. -/
structure Previews (answer shown : PyValue F) : Prop extends Shows answer shown where
  preview : ∀ text, memberOf (payloadOf answer) "text" = .str text →
    memberOf shown.val "preview" = .str (String.ofList (text.toList.take 300))

section Matches

variable {answer found shown : PyValue F}

/-- A match is shown with the id, the score and the payload that the client
has answered. -/
theorem matchOf_ok (h : VectorSearchTool.matchOf answer = .ok found) :
    memberOf found.val "id" = memberOf answer.val "id" ∧
      memberOf found.val "score" = memberOf answer.val "score" ∧
      memberOf found.val "payload" = payloadOf answer := by
  obtain ⟨id, hid, h⟩ := exists_of_bind_ok h
  obtain ⟨score, hscore, h⟩ := exists_of_bind_ok h
  obtain ⟨payload, hpayload, h⟩ := exists_of_bind_ok h
  obtain rfl := Except.ok.inj h
  refine ⟨(memberOf_of_get hid).symm, (memberOf_of_get hscore).symm, ?_⟩
  rw [payloadOf, memberOf_of_get hpayload]
  exact apply_ite Subtype.val _ _ _

/-- A text is cut, and an empty one is left. -/
theorem sliceTo_text {text preview : PyValue F} {s : String} {n : ℕ} (htext : text.val = .str s)
    (h : sliceTo (text.orElse (.str "")) n = .ok preview) :
    preview.val = .str (String.ofList (s.toList.take n)) := by
  obtain ⟨w, hw⟩ := text
  obtain rfl : w = .str s := htext
  by_cases hempty : s = ""
  · subst hempty
    obtain rfl := Except.ok.inj h
    rfl
  · have hself : PyValue.orElse ⟨.str s, hw⟩ (.str "") = ⟨.str s, hw⟩ :=
      if_pos (by simpa [Value.truthy] using hempty)
    rw [hself] at h
    obtain rfl := Except.ok.inj h
    rfl

/-- A match that was shown previews the answer that it comes from. -/
theorem previews_of_ok (hfound : VectorSearchTool.matchOf answer = .ok found)
    (h : previewOf found = .ok shown) : Previews answer shown := by
  obtain ⟨hfid, hfscore, hfpayload⟩ := matchOf_ok hfound
  obtain ⟨id, hid, h⟩ := exists_of_bind_ok h
  obtain ⟨score, hscore, h⟩ := exists_of_bind_ok h
  obtain ⟨payload, hpayload, h⟩ := exists_of_bind_ok h
  obtain ⟨text, htext, h⟩ := exists_of_bind_ok h
  obtain ⟨preview, hpreview, h⟩ := exists_of_bind_ok h
  obtain ⟨metadata, hmetadata, h⟩ := exists_of_bind_ok h
  obtain rfl := Except.ok.inj h
  have hown : payload.val = payloadOf answer := (memberOf_of_item hpayload).symm.trans hfpayload
  obtain ⟨kvs, hkvs, hshown⟩ := metadataOf_ok hmetadata
  constructor
  · exact ⟨(memberOf_of_item hid).symm.trans hfid, (memberOf_of_item hscore).symm.trans hfscore,
      kvs, hown.symm.trans hkvs, hshown⟩
  · intro s hs
    rw [← hown, memberOf_of_get htext] at hs
    exact sliceTo_text hs hpreview

end Matches

/-- What is looked up is an answer of the vector search. -/
theorem answers_of_search {tenant : String}
    {l : List (Exchange (BackendCall F) (BackendAnswer F))} {input : VectorSearchInput F}
    {searched : PyDict F} (h : Program.Talk (VectorSearchTool.run tenant input) l (.ok searched))
    {found : List (PyValue F)}
    (hfound : (do (← (PyValue.dict searched).item "matches").iter) = .ok found) :
    ∃ filter answer answers,
      ⟨.vectorSearch input.collection input.vector input.topK filter, .ok answer⟩ ∈ l ∧
      answer.iter = .ok answers ∧
      List.Forall₂ (fun m m' => VectorSearchTool.matchOf m = .ok m') answers found := by
  obtain ⟨filter, first, rest, rfl, -, hasked⟩ := Program.exists_of_talk_bind_ok h
  obtain ⟨reply, rfl, hreply⟩ := Program.talk_asking_iff.mp hasked
  cases reply with
  | error failure => cases hreply
  | ok answer =>
      obtain ⟨answers, hanswers, hreply⟩ := exists_of_bind_ok hreply.symm
      obtain ⟨converted, hconverted, hreply⟩ := exists_of_bind_ok hreply
      obtain rfl := Except.ok.inj hreply
      obtain ⟨listed, hlisted, hfound⟩ := exists_of_bind_ok hfound
      have hlist : listed.val = .list (converted.map Subtype.val) :=
        (memberOf_of_item hlisted).symm
      obtain rfl := eq_of_iter hlist hfound
      exact ⟨filter, answer, answers, by simp, hanswers, forall₂_of_mapM hconverted⟩

variable [UnicodeDb]

/-- `str(v["id"])`, of a value that has one. -/
def idTextOf (v : PyValue F) : String := pyStrValue (memberOf v.val "id")

/-- The last of the rows with the id of the answer. -/
def rowOf (rows : List (PyValue F)) (answer : PyValue F) : Option (PyValue F) :=
  (rows.filter fun row => idTextOf row = idTextOf answer).getLast?

/-- The result of an answer besides has the document of its row, if there is
one. -/
structure Joins (rows : List (PyValue F)) (answer shown : PyValue F) : Prop extends
    Shows answer shown where
  document : ∀ field ∈ ["title", "body", "url"],
    memberOf shown.val field =
      ((rowOf rows answer).map fun row => memberOf row.val field).getD .none

/-- The text of an id is the one that it is joined by. -/
theorem idText_ok {v : PyValue F} {text : String} (h : idText v = .ok text) :
    text = idTextOf v := by
  obtain ⟨id, hid, h⟩ := exists_of_bind_ok h
  obtain rfl := Except.ok.inj h
  rw [idTextOf, memberOf_of_item hid]

/-- The ids of the matches are those of the answers. -/
theorem ids_of_matches {answers found : List (PyValue F)} {ids : List String}
    (hfound : List.Forall₂ (fun m m' => VectorSearchTool.matchOf m = .ok m') answers found)
    (h : found.mapM idText = .ok ids) : ids = answers.map idTextOf := by
  have hids : List.Forall₂ (fun m id => idTextOf m = id) answers ids := by
    refine forall₂_through hfound (forall₂_of_mapM h) fun m m' id hm hid => ?_
    rw [idText_ok hid]
    exact (congrArg pyStrValue (matchOf_ok hm).1).symm
  have hsame := List.forall₂_map_left_iff.mpr hids
  rw [List.forall₂_eq_eq_eq] at hsame
  exact hsame.symm

/-- **The last row with an id is the one under it.** -/
theorem dictGet_of_byId {rows : List (PyValue F)} {docs : List (String × PyValue F)}
    (h : byId rows = .ok docs) (text : String) :
    dictGet docs text = (rows.filter fun row => idTextOf row = text).getLast? := by
  induction rows using List.reverseRecOn generalizing docs with
  | nil =>
      obtain rfl := Except.ok.inj h
      rfl
  | append_singleton rows row ih =>
      rw [byId, List.foldlM_append] at h
      obtain ⟨before, hbefore, h⟩ := exists_of_bind_ok h
      rw [List.foldlM_cons] at h
      obtain ⟨after, hafter, h⟩ := exists_of_bind_ok h
      obtain rfl : after = docs := Except.ok.inj h
      obtain ⟨id, hid, hafter⟩ := exists_of_bind_ok hafter
      obtain rfl := Except.ok.inj hafter
      obtain rfl := idText_ok hid
      rw [List.filter_append]
      by_cases hrow : idTextOf row = text
      · subst hrow
        rw [dictGet_dictSet_self]
        simp
      · rw [dictGet_dictSet_of_ne _ (Ne.symm hrow), ih hbefore]
        simp [hrow]

/-- A match that was shown joins the answer that it comes from with the row of
its id, if there is one. -/
theorem joins_of_ok {answer found shown : PyValue F} {rows : List (PyValue F)}
    {docs : List (String × PyValue F)} (hdocs : byId rows = .ok docs)
    (hfound : VectorSearchTool.matchOf answer = .ok found)
    (h : hydratedOf docs found = .ok shown) : Joins rows answer shown := by
  obtain ⟨hfid, hfscore, hfpayload⟩ := matchOf_ok hfound
  obtain ⟨text, htext, h⟩ := exists_of_bind_ok h
  obtain ⟨id, hid, h⟩ := exists_of_bind_ok h
  obtain ⟨score, hscore, h⟩ := exists_of_bind_ok h
  obtain ⟨title, htitle, h⟩ := exists_of_bind_ok h
  obtain ⟨body, hbody, h⟩ := exists_of_bind_ok h
  obtain ⟨url, hurl, h⟩ := exists_of_bind_ok h
  obtain ⟨payload, hpayload, h⟩ := exists_of_bind_ok h
  obtain ⟨metadata, hmetadata, h⟩ := exists_of_bind_ok h
  obtain rfl := Except.ok.inj h
  have hown : payload.val = payloadOf answer := (memberOf_of_item hpayload).symm.trans hfpayload
  obtain ⟨kvs, hkvs, hshown⟩ := metadataOf_ok hmetadata
  have hrow : docs.lookup text = rowOf rows answer := by
    obtain rfl := idText_ok htext
    have hsame : idTextOf found = idTextOf answer := congrArg pyStrValue hfid
    exact (dictGet_of_byId hdocs _).trans (by rw [hsame]; rfl)
  have hfield : ∀ {field x}, PyValue.get ((docs.lookup text).getD
      (.dict (.ofPairs [] List.nodup_nil))) field .none = .ok x →
      x.val = ((rowOf rows answer).map fun row => memberOf row.val field).getD .none := by
    intro field x hx
    rw [← memberOf_of_get hx, hrow]
    cases rowOf rows answer <;> rfl
  refine ⟨⟨(memberOf_of_item hid).symm.trans hfid, (memberOf_of_item hscore).symm.trans hfscore,
    kvs, hown.symm.trans hkvs, hshown⟩, ?_⟩
  intro field hmem
  simp only [List.mem_cons, List.not_mem_nil, or_false] at hmem
  rcases hmem with rfl | rfl | rfl
  · exact hfield htitle
  · exact hfield hbody
  · exact hfield hurl

/-! ## Runs -/

variable {tenant : String} {l : List (Exchange (BackendCall F) (BackendAnswer F))}

/-- The parameter of the query for documents. -/
def idsOf (answers : List (PyValue F)) : List (Value F) :=
  [.list (answers.map fun answer => .str (idTextOf answer))]

/-- Answers that are looked up are joined with the rows that come back. -/
theorem joins_of_talk {input : SemanticSearchInput} {answers found : List (PyValue F)}
    (hfound : List.Forall₂ (fun m m' => VectorSearchTool.matchOf m = .ok m') answers found)
    {result : PyDict F} (h : Program.Talk (hydrated tenant input found) l (.ok result)) :
    ∃ sql rows shown, ⟨.fetch tenant sql (idsOf answers) input.topK, .ok rows⟩ ∈ l ∧
      result = resultOf input.query shown ∧
      List.Forall₂ (Joins (rows.map PyValue.dict)) answers shown := by
  obtain ⟨ids, first, rest, rfl, hids, hlookup⟩ := Program.exists_of_talk_bind_ok h
  obtain ⟨query, second, rest, rfl, hbuilt, hfetched⟩ := Program.exists_of_talk_bind_ok hlookup
  obtain ⟨fetched, third, rest, rfl, hasked, hjoined⟩ := Program.exists_of_talk_bind_ok hfetched
  obtain ⟨reply, rfl, hreply⟩ := Program.talk_asking_iff.mp hasked
  have hquery := PostgresQueryInput.eq_of_build (Program.talk_ofExcept_iff.mp hbuilt).2.symm
  have hmax : query.maxRows = input.topK := by rw [hquery]
  have hparams : query.params = idsOf answers := by
    obtain rfl := ids_of_matches hfound (Program.talk_ofExcept_iff.mp hids).2.symm
    rw [hquery, idsOf, List.map_map]
    rfl
  cases reply with
  | error failure => cases hreply
  | ok rows =>
      obtain rfl := Except.ok.inj hreply
      have hok := (Program.talk_ofExcept_iff.mp hjoined).2.symm
      obtain ⟨listed, hlisted, hok⟩ := exists_of_bind_ok hok
      obtain ⟨ys, hys, hok⟩ := exists_of_bind_ok hok
      obtain ⟨docs, hdocs, hok⟩ := exists_of_bind_ok hok
      obtain ⟨shown, hshown, hok⟩ := exists_of_bind_ok hok
      obtain rfl := Except.ok.inj hok
      have hlist : listed.val = .list ((rows.map PyValue.dict).map Subtype.val) :=
        (memberOf_of_item hlisted).symm
      obtain rfl := eq_of_iter hlist hys
      refine ⟨query.sql, rows, shown, ?_, rfl, ?_⟩
      · rw [← hparams, ← hmax]
        simp
      · exact forall₂_through hfound (forall₂_of_mapM hshown) fun _ _ _ => joins_of_ok hdocs

/-- What is shown of the answers: joined with rows that come back, or on their
own. -/
def Shown (tenant : String) (input : SemanticSearchInput)
    (l : List (Exchange (BackendCall F) (BackendAnswer F))) (answers shown : List (PyValue F)) :
    Prop :=
  if input.hydrateFromPostgres then
    ∃ rows : List (PyDict F), List.Forall₂ (Joins (rows.map PyValue.dict)) answers shown ∧
      (answers ≠ [] → ∃ sql, ⟨.fetch tenant sql (idsOf answers) input.topK, .ok rows⟩ ∈ l)
  else List.Forall₂ Previews answers shown

theorem shown_nil {input : SemanticSearchInput} : Shown tenant input l [] [] := by
  unfold Shown
  split
  · exact ⟨[], .nil, fun h => absurd rfl h⟩
  · exact .nil

/-- What is shown stays so when there were further calls. -/
theorem Shown.mono {input : SemanticSearchInput} {answers shown : List (PyValue F)}
    {l' : List (Exchange (BackendCall F) (BackendAnswer F))}
    (h : Shown tenant input l answers shown) (hsub : l ⊆ l') :
    Shown tenant input l' answers shown := by
  unfold Shown at h ⊢
  split at h
  next hhydrate =>
    obtain ⟨rows, hjoins, hfetch⟩ := h
    rw [if_pos hhydrate]
    refine ⟨rows, hjoins, fun hne => ?_⟩
    obtain ⟨sql, hmem⟩ := hfetch hne
    exact ⟨sql, hsub hmem⟩
  next hhydrate =>
    rw [if_neg hhydrate]
    exact h

/-- What `run` makes of the matches is shown of their answers. -/
theorem shown_of_talk {input : SemanticSearchInput} {answers found : List (PyValue F)}
    (hmatched : List.Forall₂ (fun m m' => VectorSearchTool.matchOf m = .ok m') answers found)
    {result : PyDict F}
    (h : Program.Talk (if found.isEmpty then pure (resultOf input.query [])
      else if input.hydrateFromPostgres then hydrated tenant input found
      else .ofExcept do return resultOf input.query (← found.mapM previewOf)) l (.ok result)) :
    ∃ shown, result = resultOf input.query shown ∧ Shown tenant input l answers shown := by
  split at h
  next hempty =>
    -- nothing is found, and nothing is looked up
    obtain ⟨-, hresult⟩ := Program.talk_pure_iff.mp h
    obtain rfl := List.isEmpty_iff.mp hempty
    obtain rfl := List.forall₂_nil_right_iff.mp hmatched
    exact ⟨[], Except.ok.inj hresult, shown_nil⟩
  next =>
    split at h
    next hhydrate =>
      obtain ⟨sql, rows, shown, hfetch, hresult, hjoins⟩ := joins_of_talk hmatched h
      refine ⟨shown, hresult, ?_⟩
      rw [Shown, if_pos hhydrate]
      exact ⟨rows, hjoins, fun _ => ⟨sql, hfetch⟩⟩
    next hhydrate =>
      obtain ⟨shown, hpreviews, hresult⟩ :=
        exists_of_bind_ok (Program.talk_ofExcept_iff.mp h).2.symm
      refine ⟨shown, (Except.ok.inj hresult).symm, ?_⟩
      rw [Shown, if_neg hhydrate]
      exact forall₂_through hmatched (forall₂_of_mapM hpreviews) fun _ _ _ => previews_of_ok

/-- **The results of a semantic search.** -/
theorem results_of_talk {input : SemanticSearchInput} {result : PyDict F}
    (h : Program.Talk (run tenant input) l (.ok result)) :
    ∃ vector others filter answer answers shown,
      ⟨.embed [input.query], .ok (vector :: others)⟩ ∈ l ∧
      ⟨.vectorSearch input.collection vector input.topK filter, .ok answer⟩ ∈ l ∧
      answer.iter = .ok answers ∧ result = resultOf input.query shown ∧
      Shown tenant input l answers shown := by
  obtain ⟨vectors, first, rest, rfl, hembedded, h1⟩ := Program.exists_of_talk_bind_ok h
  obtain ⟨vector, second, rest, rfl, hvector, h2⟩ := Program.exists_of_talk_bind_ok h1
  obtain ⟨search, third, rest, rfl, hbuilt, h3⟩ := Program.exists_of_talk_bind_ok h2
  obtain ⟨searched, fourth, rest, rfl, hsearched, h4⟩ := Program.exists_of_talk_bind_ok h3
  obtain ⟨found, fifth, rest, rfl, hfound, h5⟩ := Program.exists_of_talk_bind_ok h4
  obtain ⟨others, rfl⟩ := eq_cons_of_firstVector (Program.talk_ofExcept_iff.mp hvector).2.symm
  obtain rfl := VectorSearchInput.eq_of_build (Program.talk_ofExcept_iff.mp hbuilt).2.symm
  obtain ⟨filter, answer, answers, hasked, hanswers, hmatched⟩ :=
    answers_of_search hsearched (Program.talk_ofExcept_iff.mp hfound).2.symm
  have hembed := mem_of_talk_embedded hembedded
  obtain ⟨shown, hresult, hshown⟩ := shown_of_talk hmatched h5
  refine ⟨vector, others, filter, answer, answers, shown, by simp [hembed], by simp [hasked],
    hanswers, hresult, hshown.mono fun x hx => ?_⟩
  simp [hx]

end Results

/-- Two passages of one document, and two rows for it. -/
def refundBackends : (call : BackendCall WholeFloat) → BackendAnswer WholeFloat call
  | .embed _ => .ok [[⟨1⟩]]
  | .vectorSearch .. => .ok (.list [passage "one", passage "two"])
  | .fetch .. => .ok [row "Refunds", row "Refund policy"]
  | .search .. => .error .cancelled
where
  passage (text : String) : PyValue WholeFloat := .dict (.ofPairs
    [("id", .int 7), ("score", .int 1), ("payload", .dict (.ofPairs [("text", .str text)]
      (by simp)))] (by simp))
  row (title : String) : PyDict WholeFloat := .ofPairs
    [("id", .str "7"), ("title", .str title)] (by simp)

/-- A search, for the tests. -/
def refundSearch : SemanticSearchInput where
  query := "refunds"
  collection := "docs"

/-- The search for refunds, with these backends. -/
def refundRun : List (Exchange (BackendCall WholeFloat) (BackendAnswer WholeFloat)) ×
    Except (Exc WholeFloat) (PyDict WholeFloat) :=
  (ExceptT.run (run "acme" refundSearch)).play (fun _ => refundBackends) []

/-- A run of the search that returns, and what it shows. -/
theorem refunds_shown :
    ∃ l, ∃ result : PyDict WholeFloat,
      Program.Talk (run "acme" refundSearch) l (.ok result) ∧
      ∃ answers shown, result = resultOf "refunds" shown ∧
        Shown "acme" refundSearch l answers shown := by
  have hok : refundRun.2.isOk = true := by decide +kernel
  have htalk : Program.Talk (run "acme" refundSearch) refundRun.1 refundRun.2 :=
    Dialogue.talk_play (fun _ => refundBackends) (ExceptT.run (run "acme" refundSearch))
  cases hresult : refundRun.2 with
  | error e =>
      rw [hresult] at hok
      cases hok
  | ok result =>
      rw [hresult] at htalk
      obtain ⟨-, -, -, -, answers, shown, -, -, -, hshown⟩ := results_of_talk htalk
      exact ⟨_, result, htalk, answers, shown, hshown⟩

end SemanticSearchTool

end Server
