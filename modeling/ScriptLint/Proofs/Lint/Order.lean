import ScriptLint.Lint.Linter
import ScriptLint.Proofs.Lint.WindowAccess
import ScriptLint.Proofs.Syntax.Layout
import ScriptLint.Proofs.Text.Position

/-!
# Reports about the window come in order

No reported access lies inside another (`WindowAccess.not_mem_enclosing`).  The
object of a reported access is an identifier, and its key is a name or a literal.
Accesses do not stand in identifiers and literals.  That none stands in a name
needs no assumption on the tree.  A denied name does not contain the word
`window`, which an access inside it would have to spell
(`WindowAccess.textOf_ne_window`).

So the reports are apart and in the order of the text (`reports_pairwise`).  Later
bytes have later positions, whatever the bytes are, and so sorting by line and
column leaves the reports as they are (`WindowAccess.check_in_order`).
-/

namespace ScriptLint

namespace WindowAccess

/-! ## Inside a name -/

/-- The characters are ASCII, and `w` is among them at most once. -/
def isPlain (s : List Char) : Bool :=
  s.all (fun c => decide (c.toNat < 128)) && decide (s.count 'w' < 2)

theorem isPlain_of_mem_deniedNames {name : String} (h : name ∈ deniedNames) :
    isPlain name.toList = true := by
  have hall : (deniedNames.all fun name => isPlain name.toList) = true := by decide +kernel
  exact List.all_eq_true.1 hall name h

/-- Nothing inside a denied name reads `window`. -/
theorem textOf_ne_window {source : Source} {name : String} (hname : name ∈ deniedNames)
    {c o : Node} (hchars : source.charsOf c <:+ '#' :: name.toList) (hstart : c.start ≤ o.start)
    (hstop : o.stop ≤ c.stop) : source.textOf o ≠ "window" := by
  intro htext
  have hplain := isPlain_of_mem_deniedNames hname
  rw [isPlain, Bool.and_eq_true, List.all_eq_true] at hplain
  have hascii : ∀ c ∈ '#' :: name.toList, c.toNat < 128 :=
    List.forall_mem_cons.2 ⟨by decide, fun c hc => of_decide_eq_true (hplain.1 c hc)⟩
  have hinfix : source.charsOf o <:+: source.charsOf c :=
    Utf8.decode_infix (fun c hc => hascii c (hchars.subset hc)) (source.slice_infix hstart hstop)
  have hwindow : source.charsOf o = "window".toList := by
    rw [← htext, Source.textOf, Source.text, String.toList_ofList]
    rfl
  -- The word has two letters `w`, so what it is a part of has them too.
  have hcount := (hwindow ▸ hinfix.trans hchars.isInfix).sublist.count_le 'w'
  rw [List.count_cons_of_ne (by decide)] at hcount
  have htwo : "window".toList.count 'w' = 2 := by decide
  have honce := of_decide_eq_true hplain.2
  omega

/-! ## Reports apart -/

/-- The key of a reported access has no reported access inside. -/
theorem not_reports_in_key {p : Program} (hlaid : p.root.LaidOut)
    (hplace : p.root.AccessesInPlace) {name : String} (hname : name ∈ deniedNames) {s c t : Site}
    (hs : s ∈ p.root.sites) (hspells : s.node.Spells p.source name)
    (hc : s.child? s.node.keyField = some c) (ht : t ∈ p.root.sites) (hct : c ∈ t :: t.enclosing) :
    ¬ reports p t = true := by
  intro hreports
  obtain ⟨a, -, hkind, ho, -, htext, -⟩ := reports_eq_true.1 hreports
  have hchild := Site.mem_children_of_child? hc
  have hcsites := Node.mem_sites_of_mem_children hs hchild
  have hnode {field : String} {d : Node} (hfield : s.node.keyField = field)
      (hd : s.node.child? field = some d) : d = c.node := by
    rw [← hfield, ← Site.map_node_child?, hc, Option.map_some, Option.some.injEq] at hd
    exact hd.symm
  have hfree (h : c.node.AccessFree) : False := h.kind_notMem ht hct hkind
  -- An access inside a name has an object inside it, and that reads `window`.
  have hoMem := Site.mem_children_of_child? ho
  have hco : c ∈ a.object.enclosing := by rwa [Site.enclosing_of_mem_children hoMem]
  have hwithin := hlaid.nested.within_of_mem_enclosing (Node.mem_sites_of_mem_children ht hoMem) hco
  have hword (hchars : p.source.charsOf c.node <:+ '#' :: name.toList) : False :=
    textOf_ne_window hname hchars hwithin.1 hwithin.2 htext
  cases hspells with
  | name hn hd _ hx =>
      rw [hnode (if_neg hn) hd] at hx
      refine hword ?_
      rw [← hx, Source.textOf, Source.text, String.toList_ofList]
      exact List.suffix_cons ..
  | privateName hn hd _ hx =>
      rw [hnode (if_neg hn) hd] at hx
      exact hword (hx ▸ List.suffix_rfl)
  | unsignedName hn hd _ hx _ =>
      rw [hnode (if_neg hn) hd] at hx
      exact hword (hx ▸ List.suffix_cons ..)
  | string hn hd hk _ =>
      rw [hnode (if_pos hn) hd] at hk
      exact hfree (hplace.names c hcsites (by simp [hk]))
  | template hn hd hk hplain _ =>
      rw [hnode (if_pos hn) hd] at hk hplain
      exact hfree (hplace.templates c hcsites hk hplain)

/-- No reported access lies inside another. -/
theorem not_mem_enclosing {p : Program} (hlaid : p.root.LaidOut) (hplace : p.root.AccessesInPlace)
    {s t : Site} (hs : s ∈ p.root.sites) (ht : t ∈ p.root.sites) (hreports : reports p s = true)
    (hreports' : reports p t = true) : s ∉ t.enclosing := by
  intro hmem
  obtain ⟨a, -, hkind, ho, hident, -, ⟨name, hname, hspells⟩, -⟩ := reports_eq_true.1 hreports
  obtain ⟨_, -, hkind', -⟩ := reports_eq_true.1 hreports'
  obtain ⟨c, hc, hct⟩ := Node.exists_child_of_mem_enclosing ht hmem
  have hfree (h : c.node.AccessFree) : False := h.kind_notMem ht hct hkind'
  by_cases hobject : s.child? "object" = some c
  · rw [ho, Option.some.injEq] at hobject
    subst hobject
    exact hfree (hplace.names _ (Node.mem_sites_of_mem_children hs hc) (by simp [hident]))
  · by_cases hkey : s.child? s.node.keyField = some c
    · exact not_reports_in_key hlaid hplace hname hs hspells hkey ht hct hreports'
    · exact hfree (hplace.parts s hs hkind c hc hobject hkey)

/-- A reported access ends before the next one starts. -/
theorem reports_pairwise {p : Program} (hlaid : p.root.LaidOut) (hplace : p.root.AccessesInPlace) :
    (p.root.visible.filter (reports p)).Pairwise fun s t => s.node.stop ≤ t.node.start := by
  have hsites : (p.root.visible.filter (reports p)).Sublist p.root.sites :=
    List.filter_sublist.trans
      ((Node.visible_sublist_reached p.root).trans (Node.walk_sublist_sites p.root))
  refine (hlaid.nested.walk_pairwise.sublist hsites).imp_of_mem fun hs ht hor => hor.resolve_left ?_
  exact not_mem_enclosing hlaid hplace (hsites.subset hs) (hsites.subset ht)
    (List.mem_filter.1 hs).2 (List.mem_filter.1 ht).2

/-- A reported access is not empty, for it has an object. -/
theorem start_lt_stop_of_reports {p : Program} (hlaid : p.root.LaidOut) {s : Site}
    (hs : s ∈ p.root.sites) (hreports : reports p s = true) : s.node.start < s.node.stop := by
  obtain ⟨a, -, -, ho, -⟩ := reports_eq_true.1 hreports
  have hmem := Site.node_mem_of_mem_children (Site.mem_children_of_child? ho)
  have hwithin := (hlaid s hs).within _ hmem
  have hnonempty := (hlaid s hs).nonempty _ hmem
  omega

/-! ## Reports in order -/

/-- Of two reports, that of the earlier byte is not greater. -/
theorem order_isLE_report (p : Program) {s t : Site} (h : s.node.start ≤ t.node.start) :
    (Diagnostic.order (report p s) (report p t)).isLE = true := by
  have hfile : compare p.filename p.filename = .eq := Std.ReflCmp.compare_self
  have hcode : compare code code = .eq := Std.ReflCmp.compare_self
  have horder : Diagnostic.order (report p s) (report p t) =
      (compare p.filename p.filename).then
        ((compare (p.source.position s.node.start).line (p.source.position t.node.start).line).then
          ((compare (p.source.position s.node.start).col (p.source.position t.node.start).col).then
            (compare code code))) := rfl
  rw [horder, hfile, hcode, Ordering.then_eq, Ordering.eq_then]
  rcases p.source.position_mono h with hline | ⟨hline, hcol⟩
  · rw [Int.compare_eq_lt.2 hline]
    rfl
  · rw [Int.compare_eq_eq.2 hline, Ordering.eq_then]
    exact Int.isLE_compare.2 hcol

/-- Reports that are in the order of the text are sorted. -/
theorem sort_eq_self {ds : List Diagnostic}
    (h : ds.Pairwise fun d e => (Diagnostic.order d e).isLE = true) : Diagnostic.sort ds = ds :=
  List.mergeSort_of_pairwise h

/-- **One report for a chain, and the reports in order.**  In a tree that is laid
out as parsers do it, with accesses nowhere but in their places, the reports are
apart and in the order of the text.  A linter that has no other rule returns those
that no directive silences, as they are. -/
theorem check_in_order {p : Program} (hlaid : p.root.LaidOut) (hplace : p.root.AccessesInPlace) :
    (∀ d ∈ rule.check p, d.range.start.byte < d.range.stop.byte) ∧
      ((rule.check p).Pairwise fun d e =>
        d.range.start.byte < e.range.start.byte ∧ d.range.stop.byte ≤ e.range.start.byte) ∧
      ∀ word, (Linter.mk [rule] word).lint p =
        (Directives.ofProgram word p).filter (rule.check p) := by
  have hsites : ∀ s ∈ p.root.visible.filter (reports p), s ∈ p.root.sites := fun s hs =>
    (Node.walk_sublist_sites p.root).subset
      ((Node.visible_sublist_reached p.root).subset (List.mem_filter.1 hs).1)
  have hnonempty : ∀ s ∈ p.root.visible.filter (reports p), s.node.start < s.node.stop :=
    fun s hs => start_lt_stop_of_reports hlaid (hsites s hs) (List.mem_filter.1 hs).2
  have hapart := reports_pairwise hlaid hplace
  rw [check_eq]
  refine ⟨?_, ?_, fun word => ?_⟩
  · intro d hd
    obtain ⟨s, hs, rfl⟩ := List.mem_map.1 hd
    exact hnonempty s hs
  · refine List.pairwise_map.2 (hapart.imp_of_mem fun {s t} hs _ hle => ?_)
    exact ⟨Nat.lt_of_lt_of_le (hnonempty s hs) hle, hle⟩
  · have hsorted : ((p.root.visible.filter (reports p)).map (report p)).Pairwise fun d e =>
        (Diagnostic.order d e).isLE = true :=
      List.pairwise_map.2 (hapart.imp_of_mem fun {s t} hs _ hle =>
        order_isLE_report p (Nat.le_trans (Nat.le_of_lt (hnonempty s hs)) hle))
    rw [Linter.lint, Linter.reports, List.flatMap_singleton, check_eq]
    exact sort_eq_self (hsorted.sublist List.filter_sublist)

/-- The reports on the first and on the last line come in this order. -/
theorem lint_threeWindows :
    ((Linter.mk [rule] "workerlint-ignore").lint Program.threeWindows).map (·.range.start.byte)
      = [0, 44] := by
  have hlaid : Program.threeWindows.root.LaidOut := by decide
  have hplace : Program.threeWindows.root.AccessesInPlace := by
    refine ⟨fun s hs hkind c hc _ _ => ?_, by decide, by decide⟩
    have hall : ∀ s ∈ Program.threeWindows.root.sites, s.node.kind ∈ memberKinds →
        ∀ c ∈ s.children, c.node.AccessFree := by decide
    exact hall s hs hkind c hc
  rw [(check_in_order hlaid hplace).2.2]
  decide +kernel

end WindowAccess

end ScriptLint
