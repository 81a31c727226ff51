import MioBench.Store.SizeText

/-!
# NUMA node lists

`parseNumaNodes` of `numa_affinity.cpp`: `strtok` cuts the list at its commas,
`strtol` reads every token, and a `std::set` keeps what was read in order.  The
sign of a node is checked on the 64-bit value, its range is not: the node that
goes into the set is the value narrowed to `int`.
-/

namespace MioBench.Bench

open MioBench.Lib MioBench.Store

/-! ## Parsing -/

/-- What a call of `strtol` leaves behind. -/
structure Strtol where
  value : Int
  rest : List Char
  converted : Bool
  deriving DecidableEq, Repr

/-- The number a sign and digits stand for. -/
def signedValue (sign : Sign) (n : Nat) : Int :=
  if sign = .minus then -(n : Int) else n

/-- `strtol(s, &end, 10)`, which saturates to the range of a 64-bit `long`. -/
def strtol (s : List Char) : Strtol :=
  let r := scan isSpace s
  if r.2.1 = [] then { value := 0, rest := s, converted := false }
  else
    { value := max (-2 ^ 63) (min (2 ^ 63 - 1) (signedValue r.1 (decimal r.2.1)))
      rest := r.2.2
      converted := true }

/-- `(int)node`. -/
def toInt (node : Int) : Int := Int.bmod node (2 ^ 32)

/-- `while (*token == ' ' || *token == '\t') token++;` -/
def trimBlanks (token : List Char) : List Char :=
  token.dropWhile fun c => c == ' ' || c == '\t'

/-- The body of the loop up to the insertion; `none` is one of its two errors. -/
def parseNode (token : List Char) : Option Int :=
  let r := strtol (trimBlanks token)
  if ¬ r.converted ∨ r.rest ≠ [] then none
  else if r.value < 0 then none
  else some (toInt r.value)

/-- Insertion into a `std::set<int>`, kept as its elements in order. -/
def insertNode (node : Int) : List Int → List Int
  | [] => [node]
  | m :: nodes =>
      if node < m then node :: m :: nodes
      else if m < node then m :: insertNode node nodes
      else m :: nodes

/-- The loop over the tokens: it returns at the first error. -/
def parseNodes (unique_nodes : List Int) : List (List Char) → Option (List Int)
  | [] => some unique_nodes
  | token :: tokens =>
      (parseNode token).bind fun node =>
        parseNodes (insertNode node unique_nodes) tokens

/-- `parseNumaNodes`; the argument is `none` for a null pointer, and the empty
vector is also the answer to an error. -/
def parseNumaNodes (numa_node_str : Option (List Char)) : List Int :=
  match numa_node_str with
  | none => []
  | some s => (parseNodes [] (strtoks ',' s.length s)).getD []

/-! ## What a list says -/

/-- The tokens between the commas. -/
def nodeTokens (s : List Char) : List (List Char) :=
  (s.splitOn ',').filter (· ≠ [])

/-- Behind its blanks `token` is exactly a decimal integer, of value `v`. -/
def NodeText (token : List Char) (v : Int) : Prop :=
  ∃ sign digits, Numeral isSpace token sign digits [] ∧
    signedValue sign (decimal digits) = v

/-- `INT_MAX`. -/
def intMax : Int := 2 ^ 31 - 1

/-- What a node list is taken for: the nodes its tokens denote, in order and
once each, if every token denotes a node number; and nothing otherwise. -/
structure ListsNodes (s : List Char) : Prop where
  valid : (∀ token ∈ nodeTokens s, ∃ v, NodeText token v ∧ 0 ≤ v ∧ v ≤ intMax) →
    (parseNumaNodes (some s)).Pairwise (· < ·) ∧
      ∀ v, v ∈ parseNumaNodes (some s) ↔ ∃ token ∈ nodeTokens s, NodeText token v
  invalid : (∃ token ∈ nodeTokens s,
      ¬ ∃ v, NodeText token v ∧ 0 ≤ v ∧ v ≤ intMax) →
    parseNumaNodes (some s) = []

/-- Every token is a non-negative integer, and one of them is too large for an
`int`. -/
def HasLargeNode (s : List Char) : Prop :=
  (∀ token ∈ nodeTokens s, ∃ v, NodeText token v ∧ 0 ≤ v) ∧
    ∃ token ∈ nodeTokens s, ∃ v, NodeText token v ∧ intMax < v

/-! ## Tokens -/

/-- Blanks in front make no difference to `strtol`. -/
theorem numeral_trimBlanks {token : List Char} {sign : Sign}
    {digits rest : List Char} :
    Numeral isSpace (trimBlanks token) sign digits rest ↔
      Numeral isSpace token sign digits rest := by
  have hBlank : ∀ c, (c == ' ' || c == '\t') = true → isSpace c = true := by
    intro c hc
    simp only [Bool.or_eq_true, beq_iff_eq] at hc
    rcases hc with rfl | rfl <;> decide
  have hDrop : (trimBlanks token).dropWhile isSpace = token.dropWhile isSpace := by
    unfold trimBlanks
    induction token with
    | nil => rfl
    | cons c token ih =>
        cases hc : (c == ' ' || c == '\t') with
        | true => simp only [List.dropWhile_cons, hc, ↓reduceIte, hBlank c hc, ih]
        | false => simp only [List.dropWhile_cons, hc, Bool.false_eq_true, ↓reduceIte]
  rw [← scan_isSpace_iff, ← scan_isSpace_iff, scan, scan, hDrop]

theorem NodeText.unique {token : List Char} {v w : Int} (h : NodeText token v)
    (h' : NodeText token w) : v = w := by
  obtain ⟨sign, digits, hNumeral, rfl⟩ := h
  obtain ⟨sign', digits', hNumeral', rfl⟩ := h'
  have hScan := (scan_isSpace_iff.mpr hNumeral).1
  rw [(scan_isSpace_iff.mpr hNumeral').1] at hScan
  obtain ⟨rfl, hDigits⟩ := Prod.mk.inj hScan
  rw [(Prod.mk.inj hDigits).1]

theorem strtol_of_numeral {s : List Char} {sign : Sign} {digits rest : List Char}
    (h : Numeral isSpace s sign digits rest) :
    strtol s =
      { value := max (-2 ^ 63) (min (2 ^ 63 - 1)
          (signedValue sign (decimal digits)))
        rest := rest
        converted := true } := by
  obtain ⟨hScan, hNe⟩ := scan_isSpace_iff.mpr h
  rw [strtol, hScan]
  exact if_neg hNe

theorem exists_numeral_of_strtol {s : List Char}
    (h : (strtol s).converted = true) :
    ∃ sign digits, Numeral isSpace s sign digits (strtol s).rest := by
  by_cases hNe : (scan isSpace s).2.1 = []
  · rw [strtol, if_pos hNe] at h
    cases h
  · have hRest : (strtol s).rest = (scan isSpace s).2.2 := by
      rw [strtol, if_neg hNe]
    rw [hRest]
    exact ⟨_, _, scan_isSpace_iff.mp ⟨rfl, hNe⟩⟩

/-- A token is read when it is an integer that is not negative; the set gets
its saturated value narrowed to `int`. -/
theorem parseNode_eq_some_iff {token : List Char} {node : Int} :
    parseNode token = some node ↔
      ∃ v, NodeText token v ∧ 0 ≤ v ∧ node = toInt (min (2 ^ 63 - 1) v) := by
  dsimp only [parseNode]
  constructor
  · intro h
    split at h
    · cases h
    · rename_i hRead
      simp only [not_or, not_not] at hRead
      split at h
      · cases h
      · rename_i hSign
        obtain ⟨sign, digits, hNumeral⟩ := exists_numeral_of_strtol hRead.1
        rw [hRead.2] at hNumeral
        rw [strtol_of_numeral hNumeral] at h hSign
        simp only [Option.some.injEq] at h hSign
        refine ⟨_, ⟨sign, digits, numeral_trimBlanks.mp hNumeral, rfl⟩, ?_, ?_⟩
        · omega
        · rw [← h, max_eq_right (by omega)]
  · rintro ⟨v, ⟨sign, digits, hNumeral, rfl⟩, hSign, rfl⟩
    rw [strtol_of_numeral (numeral_trimBlanks.mpr hNumeral)]
    have hMax : max (-2 ^ 63) (min (2 ^ 63 - 1) (signedValue sign (decimal digits)))
        = min (2 ^ 63 - 1) (signedValue sign (decimal digits)) :=
      max_eq_right (by omega)
    simp only [hMax, not_true_eq_false, ne_eq, or_self, ↓reduceIte]
    rw [if_neg (by omega)]

/-- A number that fits an `int` is not changed. -/
theorem toInt_eq {v : Int} (hv : 0 ≤ v ∧ v ≤ intMax) :
    toInt (min (2 ^ 63 - 1) v) = v := by
  unfold intMax at hv
  have hMin : min (2 ^ 63 - 1) v = v := min_eq_right (by omega)
  rw [hMin, toInt, Int.bmod, Int.emod_eq_of_lt hv.1 (by omega)]
  exact if_pos (by omega)

theorem parseNode_of_text {token : List Char} {v : Int} (h : NodeText token v)
    (hv : 0 ≤ v ∧ v ≤ intMax) : parseNode token = some v :=
  parseNode_eq_some_iff.mpr ⟨v, h, hv.1, (toInt_eq hv).symm⟩

/-! ## The set -/

theorem mem_insertNode {node m : Int} {nodes : List Int} :
    m ∈ insertNode node nodes ↔ m = node ∨ m ∈ nodes := by
  induction nodes with
  | nil => simp [insertNode]
  | cons first nodes ih =>
      by_cases hBefore : node < first
      · simp [insertNode, hBefore]
      · by_cases hBehind : first < node
        · simp only [insertNode, hBefore, hBehind, ↓reduceIte, List.mem_cons, ih]
          tauto
        · obtain rfl : node = first := by omega
          simp [insertNode]

theorem insertNode_sorted {node : Int} {nodes : List Int}
    (h : nodes.Pairwise (· < ·)) : (insertNode node nodes).Pairwise (· < ·) := by
  induction nodes with
  | nil => exact List.pairwise_singleton _ _
  | cons first nodes ih =>
      obtain ⟨hFirst, hNodes⟩ := List.pairwise_cons.mp h
      by_cases hBefore : node < first
      · simp only [insertNode, hBefore, ↓reduceIte]
        refine List.Pairwise.cons ?_ h
        intro m hm
        rcases List.mem_cons.mp hm with rfl | hm
        · exact hBefore
        · exact Int.lt_trans hBefore (hFirst m hm)
      · by_cases hBehind : first < node
        · simp only [insertNode, hBefore, hBehind, ↓reduceIte]
          refine List.Pairwise.cons ?_ (ih hNodes)
          intro m hm
          rcases mem_insertNode.mp hm with rfl | hm
          · exact hBehind
          · exact hFirst m hm
        · simpa only [insertNode, hBefore, hBehind, ↓reduceIte] using h

/-- A loop that gets through has read every token, and the set holds what was
read. -/
theorem parseNodes_some {tokens : List (List Char)} {unique_nodes nodes : List Int}
    (h : parseNodes unique_nodes tokens = some nodes) :
    (∀ token ∈ tokens, (parseNode token).isSome) ∧
    (unique_nodes.Pairwise (· < ·) → nodes.Pairwise (· < ·)) ∧
    ∀ v, v ∈ nodes ↔
      v ∈ unique_nodes ∨ ∃ token ∈ tokens, parseNode token = some v := by
  induction tokens generalizing unique_nodes with
  | nil =>
      obtain rfl := Option.some.inj h
      simp
  | cons token tokens ih =>
      obtain ⟨node, hNode, hRest⟩ := Option.bind_eq_some_iff.mp h
      obtain ⟨hRead, hSorted, hMem⟩ := ih hRest
      refine ⟨?_, fun hUnique => hSorted (insertNode_sorted hUnique), ?_⟩
      · intro token' hToken
        rcases List.mem_cons.mp hToken with rfl | hLater
        · rw [hNode]
          rfl
        · exact hRead token' hLater
      · intro v
        rw [hMem, mem_insertNode]
        simp only [List.mem_cons, exists_eq_or_imp, hNode, Option.some.injEq]
        tauto

theorem parseNodes_none {tokens : List (List Char)} {unique_nodes : List Int}
    (h : parseNodes unique_nodes tokens = none) :
    ∃ token ∈ tokens, parseNode token = none := by
  induction tokens generalizing unique_nodes with
  | nil => cases h
  | cons token tokens ih =>
      cases hNode : parseNode token with
      | none => exact ⟨token, List.mem_cons_self, hNode⟩
      | some node =>
          have hRest : parseNodes (insertNode node unique_nodes) tokens = none := by
            simpa [parseNodes, hNode] using h
          obtain ⟨token', hToken, hNone⟩ := ih hRest
          exact ⟨token', List.mem_cons_of_mem _ hToken, hNone⟩

/-! ## The list -/

theorem parseNumaNodes_eq (s : List Char) :
    parseNumaNodes (some s) = (parseNodes [] (nodeTokens s)).getD [] := by
  rw [parseNumaNodes, strtoks_eq (Nat.le_refl s.length), nodeTokens]

/-- A list whose tokens are all read holds what they are read as. -/
theorem parseNumaNodes_of_read {s : List Char}
    (hRead : ∀ token ∈ nodeTokens s, parseNode token ≠ none) :
    (parseNumaNodes (some s)).Pairwise (· < ·) ∧
      ∀ v, v ∈ parseNumaNodes (some s) ↔
        ∃ token ∈ nodeTokens s, parseNode token = some v := by
  rw [parseNumaNodes_eq]
  cases hParse : parseNodes [] (nodeTokens s) with
  | none =>
      obtain ⟨token, hToken, hNone⟩ := parseNodes_none hParse
      exact absurd hNone (hRead token hToken)
  | some nodes =>
      have hNodes := parseNodes_some hParse
      exact ⟨hNodes.2.1 List.Pairwise.nil, by simpa using hNodes.2.2⟩

/-- A token that is not read leaves nothing of the list. -/
theorem parseNumaNodes_of_none {s token : List Char} (hToken : token ∈ nodeTokens s)
    (hNone : parseNode token = none) : parseNumaNodes (some s) = [] := by
  rw [parseNumaNodes_eq]
  cases hParse : parseNodes [] (nodeTokens s) with
  | none => rfl
  | some nodes =>
      have hRead := (parseNodes_some hParse).1 token hToken
      rw [hNone] at hRead
      cases hRead

theorem parseNode_ne_none_iff {token : List Char} :
    parseNode token ≠ none ↔ ∃ v, NodeText token v ∧ 0 ≤ v := by
  constructor
  · intro hRead
    obtain ⟨node, hNode⟩ := Option.ne_none_iff_exists'.mp hRead
    obtain ⟨v, hText, hSign, -⟩ := parseNode_eq_some_iff.mp hNode
    exact ⟨v, hText, hSign⟩
  · intro hText hNone
    obtain ⟨v, hText, hSign⟩ := hText
    have hNode := parseNode_eq_some_iff.mpr ⟨v, hText, hSign, rfl⟩
    rw [hNone] at hNode
    cases hNode

/-- **Node lists**: `parseNumaNodes` does what a node list is taken for, except
when all tokens are non-negative integers and one of them does not fit an
`int`. -/
theorem parseNumaNodes_listsNodes_iff (s : List Char) :
    ListsNodes s ↔ ¬ HasLargeNode s := by
  constructor
  · intro hLists hLargeNode
    obtain ⟨hAll, token, hToken, v, hText, hLarge⟩ := hLargeNode
    have hEmpty := hLists.invalid ⟨token, hToken, by
      rintro ⟨w, hText', _, hSmall⟩
      rw [hText.unique hText'] at hLarge
      omega⟩
    -- All tokens are read, so that what this one is read as is in the list.
    have hRead : ∀ token ∈ nodeTokens s, parseNode token ≠ none :=
      fun token' hToken' => parseNode_ne_none_iff.mpr (hAll token' hToken')
    obtain ⟨node, hNode⟩ := Option.ne_none_iff_exists'.mp (hRead token hToken)
    have hIn := ((parseNumaNodes_of_read hRead).2 node).mpr ⟨token, hToken, hNode⟩
    rw [hEmpty] at hIn
    cases hIn
  · intro hNot
    constructor
    · intro hValid
      have hRead : ∀ token ∈ nodeTokens s, parseNode token ≠ none := by
        intro token hToken
        obtain ⟨v, hText, hv⟩ := hValid token hToken
        exact parseNode_ne_none_iff.mpr ⟨v, hText, hv.1⟩
      have hNodes := parseNumaNodes_of_read hRead
      refine ⟨hNodes.1, fun v => (hNodes.2 v).trans ?_⟩
      constructor
      · rintro ⟨token, hToken, hNode⟩
        obtain ⟨w, hText, hw⟩ := hValid token hToken
        rw [parseNode_of_text hText hw] at hNode
        obtain rfl := Option.some.inj hNode
        exact ⟨token, hToken, hText⟩
      · rintro ⟨token, hToken, hText⟩
        obtain ⟨w, hText', hw⟩ := hValid token hToken
        rw [hText'.unique hText] at hw
        exact ⟨token, hToken, parseNode_of_text hText hw⟩
    · intro hInvalid
      obtain ⟨token, hToken, hBad⟩ := hInvalid
      by_cases hRead : ∀ token ∈ nodeTokens s, parseNode token ≠ none
      · -- A token that is read, and is no node, is too large.
        exfalso
        obtain ⟨v, hText, hSign⟩ := parseNode_ne_none_iff.mp (hRead token hToken)
        refine hNot ⟨fun token' hToken' =>
          parseNode_ne_none_iff.mp (hRead token' hToken'), token, hToken, v, hText, ?_⟩
        by_contra hSmall
        exact hBad ⟨v, hText, hSign, by omega⟩
      · push Not at hRead
        obtain ⟨token', hToken', hNone⟩ := hRead
        exact parseNumaNodes_of_none hToken' hNone

/-- `4294967296` is taken for node 0. -/
theorem parseNumaNodes_large :
    parseNumaNodes (some "4294967296".toList) = [0] ∧
      ¬ ListsNodes "4294967296".toList := by
  refine ⟨by decide, fun hLists => ?_⟩
  have hTokens : nodeTokens "4294967296".toList = ["4294967296".toList] := by
    decide
  have hText : NodeText "4294967296".toList 4294967296 :=
    ⟨.absent, "4294967296".toList, scan_isSpace_iff.mp ⟨by decide, by decide⟩,
      by decide⟩
  have hEmpty := hLists.invalid ⟨"4294967296".toList, by
    rw [hTokens]
    exact List.mem_cons_self, by
    rintro ⟨v, hText', _, hSmall⟩
    rw [hText'.unique hText] at hSmall
    exact absurd hSmall (by decide)⟩
  exact absurd hEmpty (by decide)

end MioBench.Bench
