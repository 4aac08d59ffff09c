import ResourceApi.Proofs.Sql.Trees

/-!
# Texts of statements

**Theorem (`SelectQuery.ofText?_sql`).** A database that reads the text of a query reads its tree,
if the tree is plain (`Sql.Item.Plain`).
-/

namespace ResourceApi

open Sql (Item Tight Loose Unquoted aliasName mark marks tight_words loose_words tight_mark
  tight_name tight_aliased tight_intercalate loose_from loose_where loose_equals loose_in
  loose_comma loose_blank loose_opening loose_closing)
open Sql.Item (lexemesOf lexemes lexemesOf_append lexemesOf_intercalate Plain Settled joints)

/-! ## Cuts -/

theorem ColumnRef.tight {c : ColumnRef} (h : Unquoted c.column) :
    Tight c.sql (lexemesOf [c.item]) where
  fits := by simp [Sql.Fits, sql, Sql.aliasId, Sql.name]
  eq rest hrest := by
    have hdot : Sql.lexemes ('.' :: ((Sql.name c.column).toList ++ rest)) =
        ⟨.symbol, "."⟩ :: Sql.lexemes ((Sql.name c.column).toList ++ rest) := by
      have hname : (Sql.name c.column).toList ++ rest =
          '"' :: (c.column.toList ++ '"' :: rest) := by
        simp [Sql.name]
      rw [hname]
      exact Sql.lexemes_cons rfl
    have htext : c.sql.toList ++ rest =
        (Sql.name (aliasName c.table)).toList ++ '.' :: ((Sql.name c.column).toList ++ rest) := by
      simp [sql, Sql.aliasId, aliasName]
    rw [htext, Sql.lexemes_name (Sql.unquoted_aliasName c.table) (by simp), hdot,
      Sql.lexemes_name h (hrest.head_ne (by decide))]
    simp [item]

theorem JoinCondition.tight {j : JoinCondition} (h : Plain j.items) :
    Tight j.sql (lexemesOf j.items) := by
  cases j with
  | equal left right =>
    obtain ⟨hleft, hright⟩ : Unquoted left.column ∧ Unquoted right.column := by
      simpa [items] using h
    refine ((ColumnRef.tight hleft).join loose_equals rfl (ColumnRef.tight hright)).congr ?_
    simp [items]
  | through member table aliasId targetKey sourceKey parent =>
    obtain ⟨hmember, htarget, htable, hsource, hparent⟩ : Unquoted member.column ∧
        Unquoted targetKey ∧ Unquoted table ∧ Unquoted sourceKey ∧ Unquoted parent.column := by
      simpa [items] using h
    have hin : Loose " IN (SELECT " [⟨.word, "IN"⟩, ⟨.symbol, "("⟩, ⟨.word, "SELECT"⟩] :=
      loose_words (by decide)
    have hselect := (ColumnRef.tight hmember).join hin rfl
      (ColumnRef.tight (c := ⟨aliasId, targetKey⟩) htarget)
    have hfrom := hselect.join loose_from rfl (tight_aliased htable aliasId)
    have hwhere := hfrom.join loose_where rfl
      (ColumnRef.tight (c := ⟨aliasId, sourceKey⟩) hsource)
    have hequals := hwhere.join loose_equals rfl (ColumnRef.tight hparent)
    refine (hequals.loose loose_closing rfl).toTight.congr ?_
    simp [items]

theorem Sql.tight_parts {α : Type} {f : α → String} {g : α → List Item} {xs : List α}
    (h : ∀ x ∈ xs, Tight (f x) (lexemesOf (g x))) :
    List.Forall₂ Tight (xs.map f) ((xs.map g).map lexemesOf) := by
  rw [List.map_map, List.forall₂_map_left_iff, List.forall₂_map_right_iff, List.forall₂_same]
  exact h

theorem Comparison.tight (c : Comparison) : Tight c.sql (lexemesOf [c.item]) := by
  cases c <;> exact tight_words (by decide)

theorem Sql.tight_marks {α : Type} (values : List α) :
    Tight (marks values) (lexemesOf [.marks values]) := by
  have hmarks : List.Forall₂ Tight (values.map fun _ => mark)
      ((values.map fun _ => [Item.mark]).map lexemesOf) :=
    Sql.tight_parts fun _ _ => tight_mark
  refine ((loose_opening.tight (tight_intercalate loose_comma rfl hmarks)).loose
    loose_closing rfl).toTight.congr ?_
  simp [Item.marks, Item.listed, lexemesOf_intercalate]

/-- A column is written before the rest of a plain tree. -/
theorem ColumnRef.tight_of_plain {c : ColumnRef} {rest : List Item} (h : Plain (c.item :: rest)) :
    Tight c.sql (lexemesOf [c.item]) :=
  tight (Item.plain_column.1 h).1

/-- Several parts with a word between them stand in brackets. -/
theorem Sql.tight_connected {separator word : String} (hs : Loose separator [⟨.word, word⟩])
    (hopens : Sql.opensWithStop separator = true) {texts : List String} {parts : List (List Item)}
    (h : List.Forall₂ Tight texts (parts.map lexemesOf)) :
    Tight ("(" ++ separator.intercalate texts ++ ")")
      (lexemesOf [.group ([.word word].intercalate parts)]) := by
  have hparts := loose_opening.tight (tight_intercalate hs hopens h)
  exact (hparts.loose loose_closing rfl).toTight.congr (by simp [lexemesOf_intercalate])

namespace RowCondition

theorem plain_connected {word : String} {children : List RowCondition}
    (h : Plain [.group ([.word word].intercalate (itemsOf children))]) :
    ∀ part ∈ itemsOf children, Plain part := by
  simpa [Item.each_intercalate] using h

mutual

theorem tight : ∀ {c : RowCondition}, Plain c.items → Tight c.sql (lexemesOf c.items)
  | always, _ | never, _ => by
    unfold sql
    exact tight_words (by decide)
  | all children, h => by
    unfold sql items
    exact Sql.tight_connected (loose_words (by decide)) rfl (tights (plain_connected h))
  | any children, h => by
    unfold sql items
    exact Sql.tight_connected (loose_words (by decide)) rfl (tights (plain_connected h))
  | isNull column, h => by
    have his : Tight " IS NULL" [⟨.word, "IS"⟩, ⟨.word, "NULL"⟩] := tight_words (by decide)
    unfold sql
    refine ((ColumnRef.tight_of_plain h).tight his (by decide)).congr ?_
    simp [items]
  | isNotNull column, h => by
    have his : Tight " IS NOT NULL" [⟨.word, "IS"⟩, ⟨.word, "NOT"⟩, ⟨.word, "NULL"⟩] :=
      tight_words (by decide)
    unfold sql
    refine ((ColumnRef.tight_of_plain h).tight his (by decide)).congr ?_
    simp [items]
  | compare column comparison value, h => by
    unfold sql
    have hcomparison := (ColumnRef.tight_of_plain h).join loose_blank rfl comparison.tight
    refine (hcomparison.join loose_blank rfl tight_mark).congr ?_
    simp [items]
  | among column values, h => by
    unfold sql
    refine ((ColumnRef.tight_of_plain h).join loose_in rfl (Sql.tight_marks values)).congr ?_
    simp [items]
  | notAmong column values, h => by
    have hin : Loose " NOT IN " [⟨.word, "NOT"⟩, ⟨.word, "IN"⟩] := loose_words (by decide)
    unfold sql
    refine ((ColumnRef.tight_of_plain h).join hin rfl (Sql.tight_marks values)).congr ?_
    simp [items]
  | ilike column value, h => by
    have hcolumn : Unquoted column.column := by simpa [items] using h
    have hlower : Loose "LOWER(" [⟨.word, "LOWER"⟩, ⟨.symbol, "("⟩] := loose_words (by decide)
    have hlike : Loose ") LIKE LOWER("
        [⟨.symbol, ")"⟩, ⟨.word, "LIKE"⟩, ⟨.word, "LOWER"⟩, ⟨.symbol, "("⟩] :=
      loose_words (by decide)
    unfold sql
    have hmark := (hlower.tight (ColumnRef.tight hcolumn)).join hlike rfl tight_mark
    refine (hmark.loose loose_closing rfl).toTight.congr ?_
    simp [items]
  | hasRelated table aliasId join condition, h => by
    obtain ⟨htable, hjoin, hcondition⟩ :
        Unquoted table ∧ Plain join.items ∧ Plain condition.items := by
      simpa [items] using h
    have hexists : Loose "EXISTS (SELECT 1 FROM " [⟨.word, "EXISTS"⟩, ⟨.symbol, "("⟩,
        ⟨.word, "SELECT"⟩, ⟨.number, "1"⟩, ⟨.word, "FROM"⟩] := loose_words (by decide)
    have hand : Loose " AND " [⟨.word, "AND"⟩] := loose_words (by decide)
    unfold sql
    have hfrom := hexists.tight (tight_aliased htable aliasId)
    have hwhere := hfrom.join loose_where rfl (JoinCondition.tight hjoin)
    refine ((hwhere.join hand rfl (tight hcondition)).loose loose_closing rfl).toTight.congr ?_
    simp [items]

theorem tights : ∀ {cs : List RowCondition}, (∀ part ∈ itemsOf cs, Plain part) →
    List.Forall₂ Tight (sqls cs) ((itemsOf cs).map lexemesOf)
  | [], _ => .nil
  | c :: cs, h => by
    rw [itemsOf, List.forall_mem_cons] at h
    exact .cons (tight h.1) (tights h.2)

end

end RowCondition

theorem RowCondition.tight_clause {c : Option RowCondition} (h : Plain (clauseItems c)) :
    Tight (clause c) (lexemesOf (clauseItems c)) := by
  cases c with
  | none => exact Sql.tight_empty
  | some c =>
    have hc : Plain c.items := by simpa [clauseItems] using h
    exact (loose_where.tight (tight hc)).congr (by simp [clauseItems])

theorem SortValue.tight : ∀ {v : SortValue}, Plain v.items → Tight v.sql (lexemesOf v.items)
  | column c, h => ColumnRef.tight (by simpa [items] using h)
  | related value table aliasId join, h => by
    obtain ⟨hvalue, htable, hjoin⟩ : Plain value.items ∧ Unquoted table ∧ Plain join.items := by
      simpa [items] using h
    have hselect : Loose "(SELECT " [⟨.symbol, "("⟩, ⟨.word, "SELECT"⟩] := loose_words (by decide)
    have hlimit : Loose " LIMIT 1)" [⟨.word, "LIMIT"⟩, ⟨.number, "1"⟩, ⟨.symbol, ")"⟩] :=
      loose_words (by decide)
    unfold sql
    have hfrom := (hselect.tight (tight hvalue)).join loose_from rfl (tight_aliased htable aliasId)
    have hwhere := hfrom.join loose_where rfl (JoinCondition.tight hjoin)
    refine (hwhere.loose hlimit rfl).toTight.congr ?_
    simp [items]

theorem MemberValue.tight {v : MemberValue} (h : Plain [v.item]) :
    Tight v.sql (lexemesOf [v.item]) := by
  cases v with
  | column c => exact ColumnRef.tight (by simpa [item] using h)
  | constant v => simp [item] at h

namespace RelatedQuery

theorem loose_opening (many : Bool) : Loose (opening many) (⟨.symbol, "("⟩ :: ⟨.word, "SELECT"⟩ ::
    (if many then [⟨.word, "json_group_array"⟩, ⟨.symbol, "("⟩] else []) ++
      [⟨.word, "json_object"⟩, ⟨.symbol, "("⟩]) := by
  cases many <;> exact loose_words (by decide)

theorem tight_closing (many : Bool) {table : String} (htable : Unquoted table) (aliasId : Nat)
    {join : JoinCondition} (hjoin : Plain join.items) :
    Tight (closing many table aliasId join) ((if many then [⟨.symbol, ")"⟩] else []) ++
      lexemesOf ([.source table (aliasName aliasId), .word "WHERE"] ++ join.items ++
        if many then [] else [.word "LIMIT", .number "1"]) ++ [⟨.symbol, ")"⟩]) := by
  have hobject : Loose (if many then ")" else "") (if many then [⟨.symbol, ")"⟩] else []) := by
    cases many
    · exact Sql.loose_empty
    · exact loose_closing
  have hlimit : Loose (if many then ")" else " LIMIT 1)")
      ((if many then [] else [⟨.word, "LIMIT"⟩, ⟨.number, "1"⟩]) ++ [⟨.symbol, ")"⟩]) := by
    cases many <;> exact loose_words (by decide)
  have hfrom := (hobject.loose loose_from).tight (tight_aliased htable aliasId)
  have hwhere := hfrom.join loose_where rfl (JoinCondition.tight hjoin)
  refine (hwhere.loose hlimit (by cases many <;> rfl)).toTight.congr ?_
  cases many <;> simp

/-- A key with what it stands for. -/
theorem tight_member {key value : String} (hkey : '\'' ∉ key.toList) {items : List Item}
    (hvalue : Tight value (lexemesOf items)) :
    Tight ("'" ++ key ++ "', " ++ value) (lexemesOf (.text key :: .symbol "," :: items)) := by
  have htext : "'" ++ key ++ "', " ++ value = Sql.literal key ++ ", " ++ value := by
    have hcomma : "', " = "'" ++ ", " := rfl
    rw [Sql.literal_eq hkey, hcomma]
    simp only [String.append_assoc]
  rw [htext]
  exact ((Sql.tight_literal key).join loose_comma rfl hvalue).congr (by simp)

mutual

theorem tight : ∀ {q : RelatedQuery}, Plain q.items → Tight q.sql (lexemesOf q.items)
  | mk many fields nested fault table aliasId join, h => by
    obtain ⟨⟨hfields, hnested⟩, htable, hjoin⟩ : ((∀ member ∈ fields, Plain (fieldItems member)) ∧
        ∀ part ∈ itemsOf nested, Plain part) ∧ Unquoted table ∧ Plain join.items := by
      cases many <;>
        simpa [items, Item.each_listed, List.forall_mem_append, List.forall_mem_map,
          -List.mem_append, -List.mem_map] using h
    have hparts : List.Forall₂ Tight (fields.map fun (key, v) => "'" ++ key ++ "', " ++ v.sql)
        ((fields.map fieldItems).map lexemesOf) := by
      refine Sql.tight_parts fun member hm => ?_
      have hmember : '\'' ∉ member.1.toList ∧ Plain [member.2.item] := by
        simpa [fieldItems] using hfields member hm
      exact tight_member hmember.1 (MemberValue.tight hmember.2)
    have hmembers := tight_intercalate loose_comma rfl (List.rel_append hparts (tights hnested))
    unfold sql
    refine ((((loose_opening many).tight hmembers).loose loose_closing rfl).tight
      (tight_closing many htable aliasId hjoin)).congr ?_
    cases many <;> simp [items, Item.listed, lexemesOf_intercalate]

theorem tights : ∀ {members : List (String × RelatedQuery)},
    (∀ part ∈ itemsOf members, Plain part) →
    List.Forall₂ Tight (sqls members) ((itemsOf members).map lexemesOf)
  | [], _ => .nil
  | (key, query) :: rest, h => by
    rw [itemsOf, List.forall_mem_cons] at h
    obtain ⟨hkey, hquery⟩ : '\'' ∉ key.toList ∧ Plain query.items := by simpa using h.1
    have hjson : Loose "json(" [⟨.word, "json"⟩, ⟨.symbol, "("⟩] := loose_words (by decide)
    have hvalue : Tight ("json(" ++ query.sql ++ ")")
        (lexemesOf [.word "json", .group query.items]) :=
      ((hjson.tight (tight hquery)).loose loose_closing rfl).toTight.congr (by simp)
    have htext : "'" ++ key ++ "', json(" ++ query.sql ++ ")" =
        "'" ++ key ++ "', " ++ ("json(" ++ query.sql ++ ")") := by
      have hjson : "', json(" = "', " ++ "json(" := rfl
      rw [hjson]
      simp only [String.append_assoc]
    rw [sqls, htext]
    exact .cons (tight_member hkey hvalue) (tights h.2)

end

end RelatedQuery

namespace SelectQuery

theorem tight_window (limit offset : Option Nat) :
    Tight (window limit offset) (lexemesOf (windowItems limit offset)) := by
  have hlimit : Loose " LIMIT " [⟨.word, "LIMIT"⟩] := loose_words (by decide)
  have hoffset : Loose " OFFSET " [⟨.word, "OFFSET"⟩] := loose_words (by decide)
  have hnone : Loose " LIMIT -1 OFFSET "
      [⟨.word, "LIMIT"⟩, ⟨.symbol, "-"⟩, ⟨.number, "1"⟩, ⟨.word, "OFFSET"⟩] :=
    loose_words (by decide)
  cases limit with
  | none =>
    cases offset with
    | none => exact Sql.tight_empty
    | some offset => exact (hnone.tight (Sql.tight_number _)).congr (by simp [windowItems])
  | some limit =>
    have hbound := hlimit.tight (Sql.tight_number (min limit maxBound))
    cases offset with
    | none => exact hbound.congr (by simp [windowItems])
    | some offset =>
      exact (hbound.join hoffset rfl (Sql.tight_number _)).congr (by simp [windowItems])

theorem tight_selection {q : SelectQuery} (h : ∀ c ∈ q.columns, Unquoted c.column) :
    Tight q.selection
      (lexemesOf (.word "SELECT" :: Item.listed (q.columns.map fun c => [c.item]))) := by
  have hselect : Loose "SELECT " [⟨.word, "SELECT"⟩] := loose_words (by decide)
  have hcolumns := tight_intercalate loose_comma rfl
    (Sql.tight_parts fun c hc => ColumnRef.tight (h c hc))
  refine (hselect.tight hcolumns).congr ?_
  simp [Item.listed, lexemesOf_intercalate]

theorem tight_related {related : List RelatedQuery} (h : ∀ q ∈ related, Plain q.items) :
    Tight (String.join (related.map (", " ++ ·.sql)))
      (lexemesOf (related.flatMap fun q => .symbol "," :: q.items)) := by
  induction related with
  | nil => exact Sql.tight_empty
  | cons q related ih =>
    rw [List.forall_mem_cons] at h
    have hq := loose_comma.tight (RelatedQuery.tight h.1)
    rw [List.map_cons, String.join_cons]
    refine (hq.tight (ih h.2) ?_).congr (by simp)
    cases related <;> simp [Sql.Stops, Sql.stops]

theorem tight_keys {order : List (SortValue × Direction)}
    (h : ∀ key ∈ order, Plain (keyItems key)) :
    List.Forall₂ Tight
      (order.map fun (value, direction) => value.sql ++ match direction with
        | .asc => " ASC"
        | .desc => " DESC")
      ((order.map keyItems).map lexemesOf) := by
  refine Sql.tight_parts fun (value, direction) hm => ?_
  have hasc : Tight " ASC" [⟨.word, "ASC"⟩] := tight_words (by decide)
  have hdesc : Tight " DESC" [⟨.word, "DESC"⟩] := tight_words (by decide)
  have hvalue : Plain value.items := by
    have hkey := h _ hm
    simp only [keyItems, Item.each_append] at hkey
    exact hkey.1
  cases direction with
  | asc => exact ((SortValue.tight hvalue).tight hasc (by decide)).congr (by simp [keyItems])
  | desc => exact ((SortValue.tight hvalue).tight hdesc (by decide)).congr (by simp [keyItems])

theorem tight_order {order : List (SortValue × Direction)} {texts : List String}
    (h : List.Forall₂ Tight texts ((order.map keyItems).map lexemesOf)) :
    Tight (if texts.isEmpty then "" else " ORDER BY " ++ ", ".intercalate texts)
      (lexemesOf (orderItems order)) := by
  cases order with
  | nil =>
    cases h
    exact Sql.tight_empty
  | cons key keys =>
    have hby : Loose " ORDER BY " [⟨.word, "ORDER"⟩, ⟨.word, "BY"⟩] := loose_words (by decide)
    have htexts := hby.tight (tight_intercalate loose_comma rfl h)
    cases h
    refine htexts.congr ?_
    simp [orderItems, Item.listed, lexemesOf_intercalate]

theorem tight_source {q : SelectQuery} (htable : Unquoted q.table)
    (hcondition : Plain (RowCondition.clauseItems q.condition))
    (hkeys : ∀ key ∈ q.order, Plain (keyItems key)) :
    Tight q.source (lexemesOf ([.source q.table (aliasName q.aliasId)] ++
      RowCondition.clauseItems q.condition ++ orderItems q.order ++
      windowItems q.limit q.offset)) := by
  have hclause : Sql.Stops (RowCondition.clause q.condition).toList := by
    cases q.condition <;> simp [RowCondition.clause, Sql.Stops, Sql.stops]
  have hwindow : Sql.Stops (window q.limit q.offset).toList := by
    unfold window
    split <;> simp [Sql.Stops, Sql.stops]
  have hby (texts : List String) : Sql.Stops
      (if texts.isEmpty then "" else " ORDER BY " ++ ", ".intercalate texts).toList := by
    split_ifs <;> simp [Sql.Stops, Sql.stops]
  have hfrom := (loose_from.tight (tight_aliased htable q.aliasId)).tight
    (RowCondition.tight_clause hcondition) hclause
  have horder := hfrom.tight (tight_order (tight_keys hkeys)) (hby _)
  exact (horder.tight (tight_window q.limit q.offset) hwindow).congr (by simp)

/-- The text of a query is cut into the lexemes of its tree. -/
theorem tight {q : SelectQuery} (h : Plain q.items) : Tight q.sql (lexemesOf q.items) := by
  obtain ⟨hcolumns, hrelated, htable, hcondition, horder, -⟩ :
      (∀ c ∈ q.columns, Unquoted c.column) ∧ (∀ related ∈ q.related, Plain related.items) ∧
        Unquoted q.table ∧ Plain (RowCondition.clauseItems q.condition) ∧
        Plain (orderItems q.order) ∧ Plain (windowItems q.limit q.offset) := by
    simpa [items] using h
  have hkeys : ∀ key ∈ q.order, Plain (keyItems key) := by
    unfold orderItems at horder
    split_ifs at horder with hempty
    · simp [List.isEmpty_iff.1 hempty]
    · simpa using horder
  have hjoin : Sql.Stops (String.join (q.related.map (", " ++ ·.sql))).toList := by
    cases q.related <;> simp [Sql.Stops, Sql.stops]
  have hsource : Sql.Stops q.source.toList := by
    simp [source, Sql.Stops, Sql.stops]
  have hselection := (tight_selection hcolumns).tight (tight_related hrelated) hjoin
  refine (hselection.tight (tight_source htable hcondition hkeys) hsource).congr ?_
  simp [items]

end SelectQuery

namespace KeyQuery

variable {q : KeyQuery}

theorem plain_items : Plain q.items ↔
    Unquoted q.column ∧ Unquoted q.table ∧ Plain (RowCondition.clauseItems q.condition) := by
  simp [items]

theorem tight (h : Plain q.items) : Tight q.sql (lexemesOf q.items) := by
  obtain ⟨hcolumn, htable, hcondition⟩ := plain_items.1 h
  have hselect : Loose "SELECT " [⟨.word, "SELECT"⟩] := loose_words (by decide)
  have hfrom := (hselect.tight (ColumnRef.tight (c := ⟨q.aliasId, q.column⟩) hcolumn)).join
    loose_from rfl (tight_aliased htable q.aliasId)
  refine (hfrom.tight (RowCondition.tight_clause hcondition) ?_).congr (by simp [items])
  cases q.condition <;> simp [RowCondition.clause, Sql.Stops, Sql.stops]

end KeyQuery

/-! ## Reading -/

@[simp] theorem JoinCondition.settled_items (j : JoinCondition) : Settled j.items := by
  cases j <;> simp [items, ColumnRef.item, joints]

@[simp] theorem settled_comparison (c : Comparison) (rest : List Item) :
    Settled (c.item :: rest) ↔ Settled rest := by
  cases c <;> simp [Comparison.item, Comparison.sql, joints]

@[simp] theorem settled_marks {α : Type} (values : List α) (rest : List Item) :
    Settled (.marks values :: rest) ↔ Settled rest :=
  Item.each_marks (by simp [joints]) (by simp [joints])

namespace RowCondition

mutual

@[simp] theorem settled_items : ∀ c : RowCondition, Settled c.items
  | always | never | isNull _ | isNotNull _ | compare .. | among .. | notAmong .. | ilike .. => by
    simp [items, ColumnRef.item, joints]
  | all children | any children => by
    simpa [items, Item.each_intercalate, joints] using settled_itemsOf children
  | hasRelated _ _ _ condition => by
    simpa [items, joints] using settled_items condition

theorem settled_itemsOf : ∀ cs : List RowCondition, ∀ part ∈ itemsOf cs, Settled part
  | [] => nofun
  | c :: cs => by
    rw [itemsOf, List.forall_mem_cons]
    exact ⟨settled_items c, settled_itemsOf cs⟩

end

@[simp] theorem settled_clause (c : Option RowCondition) : Settled (clauseItems c) := by
  cases c <;> simp [clauseItems, joints]

end RowCondition

@[simp] theorem SortValue.settled_items : ∀ v : SortValue, Settled v.items
  | column _ => by simp [items, ColumnRef.item]
  | related value _ _ _ => by simpa [items, joints] using settled_items value

namespace RelatedQuery

mutual

@[simp] theorem settled_items : ∀ q : RelatedQuery, Settled q.items
  | mk many fields nested fault table aliasId join => by
    have hfields : ∀ part ∈ fields.map fieldItems, Settled part := by
      rw [List.forall_mem_map]
      rintro ⟨key, value⟩ _
      cases value <;> simp [fieldItems, MemberValue.item, ColumnRef.item, joints]
    have hmembers : Settled (Item.listed (fields.map fieldItems ++ itemsOf nested)) :=
      (Item.each_listed (by simp [joints])).2
        (List.forall_mem_append.2 ⟨hfields, settled_itemsOf nested⟩)
    cases many <;> simp [items, joints, hmembers]

theorem settled_itemsOf : ∀ members : List (String × RelatedQuery),
    ∀ part ∈ itemsOf members, Settled part
  | [] => nofun
  | (key, query) :: rest => by
    rw [itemsOf, List.forall_mem_cons]
    exact ⟨by simpa [joints] using settled_items query, settled_itemsOf rest⟩

end

end RelatedQuery

theorem SelectQuery.settled_items (q : SelectQuery) : Settled q.items := by
  have horder : Settled (orderItems q.order) := by
    unfold orderItems
    split_ifs
    · exact Item.each_nil
    · have hkey (key : SortValue × Direction) : Settled (keyItems key) := by
        obtain ⟨value, _ | _⟩ := key <;> simp [keyItems, joints]
      simp [joints, hkey]
  have hwindow : Settled (windowItems q.limit q.offset) := by
    cases q.limit <;> cases q.offset <;> simp [windowItems, joints]
  simp [items, joints, ColumnRef.item, horder, hwindow]

theorem KeyQuery.settled_items (q : KeyQuery) : Settled q.items := by
  simp [items, ColumnRef.item, joints]

/-- **The text of a query is read as its tree.** -/
theorem SelectQuery.ofText?_sql {q : SelectQuery} (h : Plain q.items) :
    Item.ofText? q.sql = some q.items :=
  Item.ofText?_eq_some q.settled_items (tight h).lexemes_eq

/-! ## Statements about the rows of a query -/

namespace KeyQuery

variable {q : KeyQuery}

theorem settled_countItems : Settled q.countItems := by
  simp [countItems, joints, q.settled_items]

theorem settled_updateItems {values : List (String × SqlValue)} :
    Settled (q.updateItems values) := by
  simp [updateItems, joints, q.settled_items]

theorem settled_deleteItems : Settled q.deleteItems := by
  simp [deleteItems, joints, q.settled_items]

section

variable (h : Plain q.items)
include h

/-- Behind what a statement does, its rows are those whose keys the query gives. -/
theorem tight_rows {text : String} {x : List Sql.Lexeme} (ht : Tight text x) :
    Tight (text ++ " WHERE " ++ Sql.name q.column ++ " IN (" ++ q.sql ++ ")")
      (x ++ lexemesOf [.word "WHERE", .name q.column, .word "IN", .group q.items]) := by
  have hin : Loose " IN (" [⟨.word, "IN"⟩, ⟨.symbol, "("⟩] := loose_words (by decide)
  have hrows := (ht.join loose_where rfl (tight_name (plain_items.1 h).1)).join hin rfl (tight h)
  exact (hrows.loose loose_closing rfl).toTight.congr (by simp)

theorem ofText?_count : Item.ofText? (Statement.count q).sql = some q.countItems := by
  refine Item.ofText?_eq_some settled_countItems (Tight.lexemes_eq ?_)
  have hcount : Loose "SELECT COUNT(*) FROM (" [⟨.word, "SELECT"⟩, ⟨.word, "COUNT"⟩,
      ⟨.symbol, "("⟩, ⟨.symbol, "*"⟩, ⟨.symbol, ")"⟩, ⟨.word, "FROM"⟩, ⟨.symbol, "("⟩] :=
    loose_words (by decide)
  refine ((hcount.tight (tight h)).loose loose_closing rfl).toTight.congr ?_
  simp [countItems]

theorem ofText?_update {values : List (String × SqlValue)}
    (hvalues : ∀ value ∈ values, Unquoted value.1) :
    Item.ofText? (Statement.update q values).sql = some (q.updateItems values) := by
  refine Item.ofText?_eq_some settled_updateItems (Tight.lexemes_eq ?_)
  have hupdate : Loose "UPDATE " [⟨.word, "UPDATE"⟩] := loose_words (by decide)
  have hset : Loose " SET " [⟨.word, "SET"⟩] := loose_words (by decide)
  have hassignments := tight_intercalate loose_comma rfl
    (Sql.tight_parts (f := fun value : String × SqlValue => Sql.name value.1 ++ " = " ++ mark)
      (g := fun value => [Item.name value.1, .symbol "=", .mark]) fun value hm =>
        ((tight_name (hvalues value hm)).join loose_equals rfl tight_mark).congr rfl)
  have htable := hupdate.tight (tight_name (plain_items.1 h).2.1)
  refine (tight_rows h (htable.join hset rfl hassignments)).congr ?_
  simp [updateItems, Item.listed, lexemesOf_intercalate]

theorem ofText?_delete : Item.ofText? (Statement.delete q).sql = some q.deleteItems := by
  refine Item.ofText?_eq_some settled_deleteItems (Tight.lexemes_eq ?_)
  have hdelete : Loose "DELETE FROM " [⟨.word, "DELETE"⟩, ⟨.word, "FROM"⟩] :=
    loose_words (by decide)
  exact (tight_rows h (hdelete.tight (tight_name (plain_items.1 h).2.1))).congr rfl

end

end KeyQuery

end ResourceApi
