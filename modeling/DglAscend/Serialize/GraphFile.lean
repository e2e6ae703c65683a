import DglAscend.Hetero.Subgraphs
import DglAscend.Serialize.UnitGraph

/-!
# Files of graphs

`HeteroGraph::Save` and `HeteroGraph::Load`, and the files of `SaveHeteroGraphs` with their index, that
`LoadHeteroGraphs` and `LoadLabels_V2` read.

All graphs of a file, or any selection of them, come back with their edges, tensors and names
(`load_saveHeteroGraphs`).
-/

namespace DglAscend.Serialize

open Aten Hetero

/-! ## Graphs -/

section Graphs

variable {σ : Type} (w : Stream σ) (T : ℕ+)

/-- `kDGLSerialize_HeteroGraph` -/
def heteroMagic : ℕ := 0xDD589FBE35224ABF

/-- The meta graph. -/
def heteroMeta (hg : HeteroGraph) : MetaGraph := ⟨hg.numVertexTypes, hg.etypes⟩

/-- `UnitGraph::NumBits`, of `GetAny`. -/
def unitBits (s : Hetero.Stored) : ℕ :=
  match s.inCsr, s.outCsr, s.coo with
  | some m, _, _ => m.bits
  | none, some m, _ => m.bits
  | none, none, some m => m.bits
  | none, none, none => 0

/-- `HeteroGraph::NumBits` -/
def graphBits (rels : List Hetero.Stored) : ℕ := (rels.head?.map unitBits).getD 0

/-- `HeteroGraph::Save` -/
def putHetero (hg : HeteroGraph) : List σ :=
  w.u64.put heteroMagic ++ (w.metaGraph T).put (heteroMeta hg) ++ (w.vec (w.unit T)).put hg.rels ++
    (w.vec w.i64).put hg.numVerts

/-- `HeteroGraph::Load` -/
def loadHetero : Scan σ HeteroGraph := do
  let magic ← w.u64.get
  Scan.check (magic = heteroMagic)
  let metaGraph ← (w.metaGraph T).get
  let rels ← (w.vec (w.unit T)).get
  let numVerts ← (w.vec w.i64).get
  pure ⟨graphBits rels, metaGraph.edges, rels, numVerts⟩

/-- The parts of a graph can be written. -/
structure HeteroStorable (hg : HeteroGraph) : Prop where
  metaGraph : (heteroMeta hg).Storable
  rels : ∀ s ∈ hg.rels, UnitStorable s
  rels_lt : hg.rels.length < 2 ^ 64
  numVerts : ∀ n ∈ hg.numVerts, n < 2 ^ 63
  bits : hg.bits = graphBits hg.rels

variable {w T}

/-- **A graph is read back.** -/
theorem HeteroStorable.load_put {hg : HeteroGraph} (h : HeteroStorable hg) (rest : List σ) :
    (loadHetero w T).run (putHetero w T hg ++ rest) = some (hg, rest) := by
  have hmeta : (w.metaGraph T).Ok (heteroMeta hg) := h.metaGraph
  have hrels : (w.vec (w.unit T)).Ok hg.rels := w.vec_ok _ _ h.rels_lt h.rels
  have hlen : hg.numVerts.length < 2 ^ 64 := h.metaGraph.vertices.trans (by norm_num)
  have hverts : (w.vec w.i64).Ok hg.numVerts := w.vec_ok _ _ hlen fun n hn => w.i64_ok (h.numVerts n hn)
  simp only [putHetero, loadHetero, List.append_assoc]
  rw [w.u64.run_bind (w.u64_ok (by decide)), Scan.run_check rfl, (w.metaGraph T).run_bind hmeta,
    (w.vec (w.unit T)).run_bind hrels, (w.vec w.i64).run_bind hverts, ← h.bits]
  rfl

/-- Graphs in a stream. -/
def Stream.hetero (w : Stream σ) (T : ℕ+) : Codec σ HeteroGraph where
  put := putHetero w T
  get := loadHetero w T
  Ok := HeteroStorable
  get_put h := h.load_put

/-! ## Graphs with their tensors -/

/-- `HeteroGraphDataObject` -/
structure GraphData (σ : Type) where
  gptr : HeteroGraph
  nodeTensors : List (List (List σ × NDArray σ))
  edgeTensors : List (List (List σ × NDArray σ))
  ntypeNames : List (List σ)
  etypeNames : List (List σ)

/-- Tensors with their names. -/
def Stream.named (w : Stream σ) : Codec σ (List (List σ × NDArray σ)) := w.vec (w.str.pair w.array)

/-- The tensors of all types. -/
def Stream.tensors (w : Stream σ) : Codec σ (List (List (List σ × NDArray σ))) := w.vec w.named

/-- The names of the types. -/
def Stream.names (w : Stream σ) : Codec σ (List (List σ)) := w.vec w.str

/-- Names and tensors can be written. -/
structure NamedOk (l : List (List σ × NDArray σ)) : Prop where
  length : l.length < 2 ^ 64
  names : ∀ x ∈ l, x.1.length < 2 ^ 64
  tensors : ∀ x ∈ l, x.2.Storable

/-- The tensors and the names of a graph can be written. -/
structure TensorsFit (g : GraphData σ) : Prop where
  node_lt : g.nodeTensors.length < 2 ^ 64
  node : ∀ l ∈ g.nodeTensors, NamedOk l
  edge_lt : g.edgeTensors.length < 2 ^ 64
  edge : ∀ l ∈ g.edgeTensors, NamedOk l
  ntype_lt : g.ntypeNames.length < 2 ^ 64
  ntype : ∀ s ∈ g.ntypeNames, s.length < 2 ^ 64
  etype_lt : g.etypeNames.length < 2 ^ 64
  etype : ∀ s ∈ g.etypeNames, s.length < 2 ^ 64

/-- The graph, the tensors and the names can be written. -/
structure GraphData.Storable (g : GraphData σ) : Prop extends TensorsFit g where
  gptr : HeteroStorable g.gptr

lemma NamedOk.ok {l : List (List σ × NDArray σ)} (h : NamedOk l) : w.named.Ok l :=
  w.vec_ok _ _ h.length fun x hx => ⟨w.str_ok _ (h.names x hx), h.tensors x hx⟩

/-- `HeteroGraphDataObject::Save` and `HeteroGraphDataObject::Load` -/
def Stream.data (w : Stream σ) (T : ℕ+) : Codec σ (GraphData σ) where
  put g := (w.hetero T).put g.gptr ++ w.tensors.put g.nodeTensors ++ w.tensors.put g.edgeTensors ++
    w.names.put g.ntypeNames ++ w.names.put g.etypeNames
  get := do
    let gptr ← (w.hetero T).get
    let nodeTensors ← w.tensors.get
    let edgeTensors ← w.tensors.get
    let ntypeNames ← w.names.get
    let etypeNames ← w.names.get
    pure ⟨gptr, nodeTensors, edgeTensors, ntypeNames, etypeNames⟩
  Ok := GraphData.Storable
  get_put {g} h rest := by
    have hgptr : (w.hetero T).Ok g.gptr := h.gptr
    have hnode : w.tensors.Ok g.nodeTensors := w.vec_ok _ _ h.node_lt fun l hl => (h.node l hl).ok
    have hedge : w.tensors.Ok g.edgeTensors := w.vec_ok _ _ h.edge_lt fun l hl => (h.edge l hl).ok
    have hntype : w.names.Ok g.ntypeNames := w.vec_ok _ _ h.ntype_lt fun s hs => w.str_ok s (h.ntype s hs)
    have hetype : w.names.Ok g.etypeNames := w.vec_ok _ _ h.etype_lt fun s hs => w.str_ok s (h.etype s hs)
    simp only [List.append_assoc]
    rw [(w.hetero T).run_bind hgptr, w.tensors.run_bind hnode, w.tensors.run_bind hedge,
      w.names.run_bind hntype, w.names.run_bind hetype]
    rfl

end Graphs

/-! ## The file -/

section File

variable {σ : Type} (w : Stream σ) (T : ℕ+)

/-- `kDGLSerializeMagic` -/
def fileMagic : ℕ := 0xDD2E4FF046B4A13F

/-- `GraphType::kHeteroGraph` -/
def heteroType : ℕ := 2

/-- The buffer of 4096 characters for the metadata, of which the rest is what it was. -/
def fileHead (padding : List σ) (numGraph : ℕ) : List σ :=
  w.u64.put fileMagic ++ w.u64.put 2 ++ w.u64.put heteroType ++ w.u64.put numGraph ++ padding

/-- The part before the graphs: the metadata, where the graphs start, and the labels. -/
def fileFront (padding : List σ) (labels : List (List σ × NDArray σ)) (numGraph : ℕ) : List σ :=
  let head := fileHead w padding numGraph
  let labelsBlob := w.named.put labels
  head ++ w.u64.put (head.length + 8 + labelsBlob.length) ++ labelsBlob

/-- The loop over the graphs: each is written behind the others, and its place is noted. -/
def writeGraphs (data : List (GraphData σ)) (out : List σ) : List σ × List ℕ :=
  data.foldl (fun s g => (s.1 ++ (w.data T).put g, s.2 ++ [s.1.length])) (out, [])

/-- `SaveHeteroGraphs`, of graphs in the formats that are saved. -/
def graphFile (padding : List σ) (labels : List (List σ × NDArray σ)) (data : List (GraphData σ)) :
    List σ :=
  let (out, graphIndices) := writeGraphs w T data (fileFront w padding labels data.length)
  let indptrBlob := (w.vec w.u64).put graphIndices
  out ++ w.str.put indptrBlob ++ w.u64.put indptrBlob.length

/-- A value at a place of the file: `Seek` and `Read`. -/
def readAt {α : Type} (file : List σ) (pos : ℕ) (read : Scan σ α) : Option α :=
  (read.run (file.drop pos)).map Prod.fst

/-- The magic number, the version, the type of the graphs and their number. -/
def readHead : Scan σ (ℕ × ℕ × ℕ × ℕ) := do
  let magic ← w.u64.get
  let version ← w.u64.get
  let graphType ← w.u64.get
  let numGraph ← w.u64.get
  pure (magic, version, graphType, numGraph)

/-- `LoadHeteroGraphs` -/
def loadHeteroGraphs (file : List σ) (idxList : List ℕ) : Option (List (GraphData σ)) := do
  let (magic, version, graphType, numGraph) ← readAt file 0 (readHead w)
  guard (magic = fileMagic ∧ version = 2 ∧ graphType = heteroType)
  let gdataStartPos ← readAt file 4096 w.u64.get
  if idxList = [] then readAt file gdataStartPos (Scan.times (w.data T).get numGraph)
  else do
    let indptrBufferSize ← readAt file (file.length - 8) w.u64.get
    let graphIndices ← readAt file (file.length - 8 - indptrBufferSize) (w.vec w.u64).get
    idxList.mapM fun gid => do
      let pos ← graphIndices[gid]?
      readAt file pos (w.data T).get

/-- `LoadLabels_V2`, which does not check what it reads of the metadata. -/
def loadLabels (file : List σ) : Option (List (List σ × NDArray σ)) := do
  let _ ← readAt file 0 (readHead w)
  readAt file 4096 do
    let _ ← w.u64.get
    w.named.get

/-! ## Reading a file -/

variable {w T}

lemma readAt_of_append {α : Type} (c : Codec σ α) {a : α} (ha : c.Ok a) (before after : List σ)
    {file : List σ} {pos : ℕ} (hfile : file = before ++ (c.put a ++ after)) (hpos : before.length = pos) :
    readAt file pos c.get = some a := by
  rw [readAt, hfile, ← hpos, List.drop_left, c.get_put ha]
  rfl

/-- The graphs stand behind each other, each at the place that is noted. -/
lemma writeGraphs_eq (data : List (GraphData σ)) (out : List σ) (places : List ℕ) :
    data.foldl (fun s g => (s.1 ++ (w.data T).put g, s.2 ++ [s.1.length])) (out, places) =
      (out ++ (w.data T).putAll data, places ++
        (List.range data.length).map fun i => (out ++ (w.data T).putAll (data.take i)).length) := by
  induction data generalizing out places with
  | nil => simp [Codec.putAll]
  | cons g data ih =>
      rw [List.foldl_cons, ih]
      refine Prod.ext ?_ ?_
      · simp [Codec.putAll]
      · simp [Codec.putAll, List.range_succ_eq_map, Function.comp_def]

/-- What is written into a file fits it. -/
structure FileOk (padding : List σ) (labels : List (List σ × NDArray σ)) (data : List (GraphData σ))
    (file : List σ) : Prop where
  padding : padding.length = 4096 - 32
  labels : NamedOk labels
  graphs : ∀ g ∈ data, g.Storable
  count : data.length < 2 ^ 64
  size : file.length < 2 ^ 64

section Parts

variable (w T) (padding : List σ) (labels : List (List σ × NDArray σ)) (data : List (GraphData σ))

/-- Where a graph stands. -/
def graphPlace (i : ℕ) : ℕ :=
  (fileFront w padding labels data.length ++ (w.data T).putAll (data.take i)).length

/-- The index of the file. -/
def fileIndex : List σ :=
  (w.vec w.u64).put ((List.range data.length).map (graphPlace w T padding labels data))

lemma length_fileHead (hpadding : padding.length = 4096 - 32) (n : ℕ) :
    (fileHead w padding n).length = 4096 := by
  have hword (x : ℕ) : (w.u64.put x).length = 8 := w.word_length 8 x
  simp only [fileHead, List.length_append, hword, hpadding]

lemma fileFront_eq (n : ℕ) : fileFront w padding labels n =
    fileHead w padding n ++ (w.u64.put (fileFront w padding labels n).length ++ w.named.put labels) := by
  have hword (x : ℕ) : (w.u64.put x).length = 8 := w.word_length 8 x
  simp only [fileFront, List.length_append, hword, List.append_assoc]
  congr 3
  omega

/-- The parts of a file; between the graphs and the index is the length of the index as a string. -/
lemma graphFile_eq : ∃ size, graphFile w T padding labels data =
    fileFront w padding labels data.length ++ ((w.data T).putAll data ++ (size ++
      (fileIndex w T padding labels data ++ w.u64.put (fileIndex w T padding labels data).length))) := by
  have hwrite : writeGraphs w T data (fileFront w padding labels data.length) = _ :=
    writeGraphs_eq data (fileFront w padding labels data.length) []
  obtain ⟨size, hsize⟩ := w.str_suffix (fileIndex w T padding labels data)
  refine ⟨size, ?_⟩
  rw [graphFile, hwrite]
  simp only [List.nil_append, List.append_assoc]
  rw [← List.append_assoc size, hsize]
  rfl

/-- The metadata, the start of the graphs and the labels come first. -/
lemma graphFile_head : ∃ rest, graphFile w T padding labels data = fileHead w padding data.length ++
    (w.u64.put (fileFront w padding labels data.length).length ++ (w.named.put labels ++ rest)) := by
  obtain ⟨size, hfile⟩ := graphFile_eq w T padding labels data
  refine ⟨(w.data T).putAll data ++ (size ++ (fileIndex w T padding labels data ++
    w.u64.put (fileIndex w T padding labels data).length)), ?_⟩
  have hfront := congrArg (fun front => front ++ ((w.data T).putAll data ++ (size ++
    (fileIndex w T padding labels data ++ w.u64.put (fileIndex w T padding labels data).length))))
    (fileFront_eq w padding labels data.length)
  simp only [List.append_assoc] at hfront
  rw [hfile, hfront]

variable {padding labels data}

lemma readAt_head {n : ℕ} (hn : n < 2 ^ 64) (rest : List σ) :
    readAt (fileHead w padding n ++ rest) 0 (readHead w) = some (fileMagic, 2, heteroType, n) := by
  rw [readAt, List.drop_zero]
  simp only [fileHead, readHead, List.append_assoc]
  rw [w.u64.run_bind (w.u64_ok (by decide)), w.u64.run_bind (w.u64_ok (by decide)),
    w.u64.run_bind (w.u64_ok (by decide)), w.u64.run_bind (w.u64_ok hn)]
  rfl

section Reads

variable (h : FileOk padding labels data (graphFile w T padding labels data))
include h

lemma FileOk.front_lt : (fileFront w padding labels data.length).length < 2 ^ 64 := by
  obtain ⟨size, hfile⟩ := graphFile_eq w T padding labels data
  have hsize := h.size
  rw [hfile, List.length_append] at hsize
  omega

lemma FileOk.place_lt {i : ℕ} : graphPlace w T padding labels data i < 2 ^ 64 := by
  obtain ⟨size, hfile⟩ := graphFile_eq w T padding labels data
  have hsize := h.size
  have htake : ((w.data T).putAll (data.take i)).length ≤ ((w.data T).putAll data).length := by
    have hsplit : (w.data T).putAll data =
        (w.data T).putAll (data.take i) ++ (w.data T).putAll (data.drop i) := by
      rw [Codec.putAll, Codec.putAll, Codec.putAll, ← List.flatMap_append, List.take_append_drop]
    rw [hsplit, List.length_append]
    omega
  rw [hfile, List.length_append, List.length_append] at hsize
  rw [graphPlace, List.length_append]
  omega

lemma FileOk.readAt_head : readAt (graphFile w T padding labels data) 0 (readHead w) =
    some (fileMagic, 2, heteroType, data.length) := by
  obtain ⟨rest, hfile⟩ := graphFile_head w T padding labels data
  rw [hfile]
  exact Serialize.readAt_head w h.count _

lemma FileOk.readAt_start : readAt (graphFile w T padding labels data) 4096 w.u64.get =
    some (fileFront w padding labels data.length).length := by
  obtain ⟨rest, hfile⟩ := graphFile_head w T padding labels data
  exact readAt_of_append w.u64 (w.u64_ok (h.front_lt w T)) _ _ hfile
    (length_fileHead w padding h.padding data.length)

lemma FileOk.readAt_graphs : readAt (graphFile w T padding labels data)
    (fileFront w padding labels data.length).length (Scan.times (w.data T).get data.length) = some data := by
  obtain ⟨size, hfile⟩ := graphFile_eq w T padding labels data
  have hdata : ∀ g ∈ data, (w.data T).Ok g := h.graphs
  rw [readAt, hfile, List.drop_left, (w.data T).run_times hdata]
  rfl

lemma FileOk.loadLabels : loadLabels w (graphFile w T padding labels data) = some labels := by
  obtain ⟨rest, hfile⟩ := graphFile_head w T padding labels data
  have hlabels : w.named.Ok labels := h.labels.ok
  have hstart : w.u64.Ok (fileFront w padding labels data.length).length := w.u64_ok (h.front_lt w T)
  rw [Serialize.loadLabels, h.readAt_head w T]
  show readAt _ _ _ = _
  rw [readAt, hfile, ← length_fileHead w padding h.padding data.length, List.drop_left,
    w.u64.run_bind hstart, w.named.get_put hlabels]
  rfl

lemma FileOk.readAt_index :
    readAt (graphFile w T padding labels data) ((graphFile w T padding labels data).length - 8) w.u64.get =
      some (fileIndex w T padding labels data).length ∧
    readAt (graphFile w T padding labels data)
      ((graphFile w T padding labels data).length - 8 - (fileIndex w T padding labels data).length)
      (w.vec w.u64).get = some ((List.range data.length).map (graphPlace w T padding labels data)) := by
  obtain ⟨size, hfile⟩ := graphFile_eq w T padding labels data
  have hsize := h.size
  have hword (x : ℕ) : (w.u64.put x).length = 8 := w.word_length 8 x
  have hlength : (graphFile w T padding labels data).length =
      (fileFront w padding labels data.length ++ ((w.data T).putAll data ++ size)).length +
        (fileIndex w T padding labels data).length + 8 := by
    rw [hfile]
    simp only [List.length_append, hword]
    omega
  have hindex : (w.vec w.u64).Ok ((List.range data.length).map (graphPlace w T padding labels data)) := by
    refine w.vec_ok _ _ ?_ fun x hx => ?_
    · rw [List.length_map, List.length_range]
      exact h.count
    · obtain ⟨i, -, rfl⟩ := List.mem_map.1 hx
      exact w.u64_ok (h.place_lt w T)
  constructor
  · refine readAt_of_append w.u64 (w.u64_ok (by omega)) (fileFront w padding labels data.length ++
      ((w.data T).putAll data ++ (size ++ fileIndex w T padding labels data))) [] ?_ ?_
    · rw [hfile]
      simp only [List.append_assoc, List.append_nil]
    · rw [hlength]
      simp only [List.length_append]
      omega
  · refine readAt_of_append (w.vec w.u64) hindex (fileFront w padding labels data.length ++
      ((w.data T).putAll data ++ size)) (w.u64.put (fileIndex w T padding labels data).length) ?_ ?_
    · rw [hfile, fileIndex]
      simp only [List.append_assoc]
    · rw [hlength]
      omega

lemma FileOk.readAt_graph {i : ℕ} (hi : i < data.length) : readAt (graphFile w T padding labels data)
    (graphPlace w T padding labels data i) (w.data T).get = some data[i] := by
  obtain ⟨size, hfile⟩ := graphFile_eq w T padding labels data
  have hok : (w.data T).Ok data[i] := h.graphs _ (List.getElem_mem hi)
  have hsplit : (w.data T).putAll data = (w.data T).putAll (data.take i) ++
      ((w.data T).put data[i] ++ (w.data T).putAll (data.drop (i + 1))) := by
    rw [Codec.putAll, Codec.putAll, Codec.putAll, ← List.flatMap_cons, ← List.drop_eq_getElem_cons hi,
      ← List.flatMap_append, List.take_append_drop]
  refine readAt_of_append (w.data T) hok (fileFront w padding labels data.length ++
    (w.data T).putAll (data.take i)) ((w.data T).putAll (data.drop (i + 1)) ++ (size ++
      (fileIndex w T padding labels data ++ w.u64.put (fileIndex w T padding labels data).length))) ?_ rfl
  rw [hfile, hsplit]
  simp only [List.append_assoc]

/-- **All graphs are read back**, or any of them in any order. -/
theorem FileOk.loadHeteroGraphs :
    loadHeteroGraphs w T (graphFile w T padding labels data) [] = some data ∧
      ∀ idxList, idxList ≠ [] →
        loadHeteroGraphs w T (graphFile w T padding labels data) idxList = idxList.mapM (data[·]?) := by
  have hhead := h.readAt_head w T
  have hstart := h.readAt_start w T
  obtain ⟨hlen, hindex⟩ := h.readAt_index w T
  constructor
  · rw [Serialize.loadHeteroGraphs, hhead]
    simp only [bind, Option.bind_some, hstart]
    simpa using h.readAt_graphs w T
  · intro idxList hne
    have heach (gid : ℕ) : (((List.range data.length).map (graphPlace w T padding labels data))[gid]?.bind
        fun pos => readAt (graphFile w T padding labels data) pos (w.data T).get) = data[gid]? := by
      by_cases hgid : gid < data.length
      · rw [List.getElem?_map, List.getElem?_range hgid, Option.map_some, Option.bind_some,
          h.readAt_graph w T hgid, List.getElem?_eq_getElem hgid]
      · rw [List.getElem?_eq_none (by simpa using hgid), List.getElem?_eq_none (Nat.not_lt.1 hgid)]
        rfl
    rw [Serialize.loadHeteroGraphs, hhead]
    simp only [bind, Option.bind_some, hstart, hlen, hindex, heach, if_neg hne]
    simp

end Reads

end Parts

end File

/-! ## Saving graphs -/

section Save

variable {σ : Type} (w : Stream σ) (T : ℕ+)

/-- What `HeteroGraph::Save` writes, with the formats of the stream. -/
def savedHetero (toSave : Formats) (hg : HeteroGraph) : Option HeteroGraph :=
  (hg.rels.mapM (savedUnit T toSave)).map fun rels => { hg with rels }

/-- What is written of a graph with its tensors. -/
def savedData (toSave : Formats) (g : GraphData σ) : Option (GraphData σ) :=
  (savedHetero T toSave g.gptr).map fun gptr => { g with gptr }

/-- `SaveHeteroGraphs` -/
def saveHeteroGraphs (toSave : Formats) (padding : List σ) (labels : List (List σ × NDArray σ))
    (gs : List (GraphData σ)) : Option (List σ) :=
  (gs.mapM (savedData T toSave)).map (graphFile w T padding labels)

lemma mapM_eq_some_iff {α β : Type} {f : α → Option β} {l : List α} {l' : List β} :
    l.mapM f = some l' ↔ List.Forall₂ (fun a b => f a = some b) l l' := by
  induction l generalizing l' with
  | nil => simp [eq_comm]
  | cons a l ih =>
      rw [List.mapM_cons]
      simp only [bind, Option.bind_eq_some_iff, pure, Option.some.injEq, ih]
      constructor
      · rintro ⟨b, hb, bs, hbs, rfl⟩
        exact .cons hb hbs
      · rintro (_ | ⟨hb, hbs⟩)
        exact ⟨_, hb, _, hbs, rfl⟩

lemma mapM_isSome_iff {α β : Type} {f : α → Option β} {l : List α} :
    (l.mapM f).isSome = true ↔ ∀ a ∈ l, (f a).isSome = true := by
  induction l with
  | nil => simp
  | cons a l ih =>
      rw [List.mapM_cons, List.forall_mem_cons, ← ih]
      cases f a with
      | none => simp
      | some b => cases l.mapM f <;> simp

/-- The relations have their edges, with ids of one width and sizes that fit it. -/
structure GraphFits (hg : HeteroGraph) (E : ℕ → Multiset Entry) : Prop where
  shows : hg.Shows E
  bits : ∀ t < hg.numEdgeTypes, HasBits hg.bits (hg.rel t)
  sizes : ∀ t < hg.numEdgeTypes, Sizes hg.bits (hg.numVertices (hg.srcType t))
    (hg.numVertices (hg.dstType t)) (Multiset.card (E t))
  numVerts : ∀ n ∈ hg.numVerts, n < 2 ^ 63
  vertexTypes : hg.numVertexTypes < 2 ^ 59
  edgeTypes : hg.numEdgeTypes < 2 ^ 59

variable {w T} {toSave : Formats} {hg k : HeteroGraph} {E : ℕ → Multiset Entry}

lemma relVertexTypes_eq (hg : HeteroGraph) (t : ℕ) : hg.relVertexTypes t = 1 ∨ hg.relVertexTypes t = 2 := by
  rw [HeteroGraph.relVertexTypes]
  split_ifs
  · exact Or.inl rfl
  · exact Or.inr rfl

lemma unitBits_eq {bits : ℕ} {s : Hetero.Stored} (hbits : HasBits bits s)
    (hcreated : s.createdFormats.nonzero = true) : unitBits s = bits := by
  rw [unitBits]
  cases hin : s.inCsr with
  | some m => exact hbits.inCsr m hin
  | none =>
      cases hout : s.outCsr with
      | some m => exact hbits.outCsr m hout
      | none =>
          cases hcoo : s.coo with
          | some m => exact hbits.coo m hcoo
          | none => simp [Hetero.Stored.createdFormats, Formats.nonzero, hcoo, hin, hout] at hcreated

/-- **A graph that is saved** has the edges of every relation, and can be read back. -/
lemma GraphFits.saved (h : GraphFits hg E) (hk : savedHetero T toSave hg = some k) :
    k.Shows E ∧ HeteroStorable k ∧ k.etypes = hg.etypes ∧ k.numVerts = hg.numVerts ∧ k.bits = hg.bits ∧
      ∀ t < hg.numEdgeTypes, (k.rel t).formats = (hg.rel t).formats ∧
        (toSave.nonzero = true → (k.rel t).createdFormats = toSave) := by
  rw [savedHetero] at hk
  obtain ⟨rels, hrels, rfl⟩ := Option.map_eq_some_iff.1 hk
  have hall := mapM_eq_some_iff.1 hrels
  have hlen : rels.length = hg.numEdgeTypes := by rw [← hall.length_eq, h.shows.rels]
  have hrel {t : ℕ} (ht : t < hg.numEdgeTypes) : savedUnit T toSave (hg.rel t) = some (rels.getD t
      ⟨2, none, none, none, .all⟩) := by
    have ht' : t < hg.rels.length := by rwa [h.shows.rels]
    have ht'' : t < rels.length := by rwa [hlen]
    have hget := List.forall₂_iff_get.1 hall
    rw [HeteroGraph.rel, List.getD_eq_getElem _ _ ht', List.getD_eq_getElem _ _ ht'']
    exact hget.2 t ht' ht''
  have hsaved {t : ℕ} (ht : t < hg.numEdgeTypes) := saved_presents (h.shows.rel t ht) (h.bits t ht)
    (relVertexTypes_eq hg t) (h.sizes t ht) (hrel ht)
  have hmem : ∀ s ∈ rels, ∃ t < hg.numEdgeTypes, rels.getD t ⟨2, none, none, none, .all⟩ = s := by
    intro s hs
    obtain ⟨t, ht, rfl⟩ := List.mem_iff_getElem.1 hs
    exact ⟨t, hlen ▸ ht, List.getD_eq_getElem _ _ ht⟩
  refine ⟨⟨hlen, h.shows.nonempty, h.shows.ends, fun t ht => (hsaved ht).1⟩, ⟨⟨?_, h.vertexTypes, ?_⟩, ?_, ?_,
    h.numVerts, ?_⟩, rfl, rfl, rfl, fun t ht => ⟨(hsaved ht).2.2.2.1, (hsaved ht).2.2.2.2⟩⟩
  · intro e he
    obtain ⟨t, ht, rfl⟩ := List.mem_iff_getElem.1 he
    have hends := h.shows.ends t ht
    have ht' : t < hg.etypes.length := ht
    rw [HeteroGraph.srcType, HeteroGraph.dstType, List.getD_eq_getElem _ _ ht'] at hends
    exact hends
  · exact h.edgeTypes
  · intro s hs
    obtain ⟨t, ht, rfl⟩ := hmem s hs
    exact (hsaved ht).2.2.1
  · rw [hlen]
    exact h.edgeTypes.trans (by norm_num)
  · have hpos : 0 < hg.numEdgeTypes := List.length_pos_iff.2 h.shows.nonempty
    have hhead : rels.head? = some (rels.getD 0 ⟨2, none, none, none, .all⟩) := by
      rw [List.head?_eq_getElem?, List.getElem?_eq_getElem (by omega), List.getD_eq_getElem _ _ (by omega)]
    obtain ⟨hpresents, hbits, -⟩ := hsaved hpos
    show hg.bits = graphBits rels
    rw [graphBits, hhead, Option.map_some, Option.getD_some]
    exact (unitBits_eq hbits hpresents.created).symm

/-- A graph that was read, and the one that was written. -/
structure SavedAs (toSave : Formats) (E : ℕ → Multiset Entry) (g g' : GraphData σ) : Prop where
  shows : g'.gptr.Shows E
  etypes : g'.gptr.etypes = g.gptr.etypes
  numVerts : g'.gptr.numVerts = g.gptr.numVerts
  bits : g'.gptr.bits = g.gptr.bits
  formats : ∀ t < g.gptr.numEdgeTypes, (g'.gptr.rel t).formats = (g.gptr.rel t).formats
  created : toSave.nonzero = true → ∀ t < g.gptr.numEdgeTypes, (g'.gptr.rel t).createdFormats = toSave
  nodeTensors : g'.nodeTensors = g.nodeTensors
  edgeTensors : g'.edgeTensors = g.edgeTensors
  ntypeNames : g'.ntypeNames = g.ntypeNames
  etypeNames : g'.etypeNames = g.etypeNames

lemma savedData_spec {g g' : GraphData σ} (h : GraphFits g.gptr E) (ht : TensorsFit g)
    (hg' : savedData T toSave g = some g') : g'.Storable ∧ SavedAs toSave E g g' := by
  rw [savedData] at hg'
  obtain ⟨gptr, hgptr, rfl⟩ := Option.map_eq_some_iff.1 hg'
  obtain ⟨hshows, hstorable, hetypes, hverts, hbits, hrels⟩ := h.saved hgptr
  exact ⟨⟨⟨ht.node_lt, ht.node, ht.edge_lt, ht.edge, ht.ntype_lt, ht.ntype, ht.etype_lt, ht.etype⟩, hstorable⟩,
    ⟨hshows, hetypes, hverts, hbits, fun t hlt => (hrels t hlt).1, fun hto t hlt => (hrels t hlt).2 hto,
      rfl, rfl, rfl, rfl⟩⟩

/-- A graph can be saved exactly in the formats that its relations may have. -/
lemma GraphFits.savedHetero_isSome_iff (h : GraphFits hg E) :
    (savedHetero T toSave hg).isSome = true ↔ ∀ s ∈ hg.rels, toSave.within s.formats = true := by
  rw [savedHetero, Option.isSome_map, mapM_isSome_iff]
  refine forall₂_congr fun s hs => ?_
  obtain ⟨t, ht, rfl⟩ := List.mem_iff_getElem.1 hs
  have ht' : t < hg.numEdgeTypes := by rwa [← h.shows.rels]
  have hrel : hg.rel t = hg.rels[t] := List.getD_eq_getElem _ _ ht
  rw [← hrel]
  exact savedUnit_isSome_iff (h.shows.rel t ht') (h.bits t ht') (h.sizes t ht')

/-- **Saving and loading.**  Graphs are saved if their relations may have the formats, and then all of
them, or any selection, come back with their edges, their tensors and their names, and so do the
labels. -/
theorem load_saveHeteroGraphs (w : Stream σ) (T : ℕ+) (toSave : Formats) {padding : List σ}
    {labels : List (List σ × NDArray σ)} {gs : List (GraphData σ)} {E : ℕ → ℕ → Multiset Entry}
    (hgs : ∀ i g, gs[i]? = some g → GraphFits g.gptr (E i) ∧ TensorsFit g)
    (hpadding : padding.length = 4096 - 32) (hlabels : NamedOk labels) (hcount : gs.length < 2 ^ 64) :
    ((saveHeteroGraphs w T toSave padding labels gs).isSome = true ↔
      ∀ g ∈ gs, ∀ s ∈ g.gptr.rels, toSave.within s.formats = true) ∧
    ∀ file, saveHeteroGraphs w T toSave padding labels gs = some file → file.length < 2 ^ 64 →
      loadLabels w file = some labels ∧ ∃ loaded : List (GraphData σ), loaded.length = gs.length ∧
        (∀ i g g', gs[i]? = some g → loaded[i]? = some g' → SavedAs toSave (E i) g g') ∧
        loadHeteroGraphs w T file [] = some loaded ∧
        ∀ idxList, idxList ≠ [] → loadHeteroGraphs w T file idxList = idxList.mapM (loaded[·]?) := by
  constructor
  · rw [saveHeteroGraphs, Option.isSome_map, mapM_isSome_iff]
    refine forall₂_congr fun g hg => ?_
    obtain ⟨i, hi⟩ := List.mem_iff_getElem?.1 hg
    rw [savedData, Option.isSome_map, (hgs i g hi).1.savedHetero_isSome_iff]
  · intro file hfile hsize
    obtain ⟨data, hdata, rfl⟩ := Option.map_eq_some_iff.1 hfile
    have hall := mapM_eq_some_iff.1 hdata
    have hlen : data.length = gs.length := hall.length_eq.symm
    have hspec {i : ℕ} {g g' : GraphData σ} (hg : gs[i]? = some g) (hg' : data[i]? = some g') :
        g'.Storable ∧ SavedAs toSave (E i) g g' := by
      obtain ⟨hi, rfl⟩ := List.getElem?_eq_some_iff.1 hg
      obtain ⟨hi', rfl⟩ := List.getElem?_eq_some_iff.1 hg'
      exact savedData_spec (hgs i _ hg).1 (hgs i _ hg).2 ((List.forall₂_iff_get.1 hall).2 i hi hi')
    have hok : FileOk padding labels data (graphFile w T padding labels data) := by
      refine ⟨hpadding, hlabels, fun g' hg' => ?_, hlen ▸ hcount, hsize⟩
      obtain ⟨i, hi⟩ := List.mem_iff_getElem?.1 hg'
      have hi' : i < gs.length := hlen ▸ (List.getElem?_eq_some_iff.1 hi).1
      exact (hspec (List.getElem?_eq_getElem hi') hi).1
    obtain ⟨hloaded, hselect⟩ := hok.loadHeteroGraphs w T
    exact ⟨hok.loadLabels w T, data, hlen, fun i g g' hg hg' => (hspec hg hg').2, hloaded, hselect⟩

/-- A `float32` array with the element `1`. -/
def weight : NDArray UInt8 := ⟨2, 32, 1, [1], [0, 0, 128, 63]⟩

/-- A graph with an edge between two types, which has a weight. -/
def betweenData : GraphData UInt8 :=
  ⟨HeteroGraph.between HeteroGraph.cooRel [2, 2], [[], []], [[([119], weight)]], [[117], [118]], [[101]]⟩

lemma weight_namedOk (name : UInt8) : NamedOk [([name], weight)] := by
  have hstorable : weight.Storable :=
    ⟨by decide, by decide, by decide, by decide, by decide, by decide, by decide, by decide⟩
  refine ⟨by simp, fun x hx => ?_, fun x hx => ?_⟩
  · rw [List.mem_singleton.1 hx]
    simp
  · rw [List.mem_singleton.1 hx]
    exact hstorable

lemma betweenData_fits : GraphFits betweenData.gptr (fun _ => (oneEdge.entries : Multiset Entry)) ∧
    TensorsFit betweenData := by
  have hshows := HeteroGraph.between_shows HeteroGraph.cooRel_presents (List.prefix_refl [2, 2])
  refine ⟨⟨hshows, fun t ht => ?_, fun t ht => ?_, by decide, by decide, by decide⟩, ⟨by decide,
    fun l hl => ?_, by decide, fun l hl => ?_, by decide, by simp [betweenData], by decide,
    by simp [betweenData]⟩⟩
  · obtain rfl := Nat.lt_one_iff.1 ht
    exact ⟨fun m hm => (Option.some_ne_none m hm.symm).elim, fun m hm => (Option.some_ne_none m hm.symm).elim,
      fun m hm => by rw [← Option.some.inj hm]; rfl⟩
  · obtain rfl := Nat.lt_one_iff.1 ht
    exact ⟨Or.inr rfl, by decide, by decide, by decide, by decide, by decide, by decide⟩
  · obtain rfl : l = [] := by simpa [betweenData] using hl
    exact ⟨by decide, by simp, by simp⟩
  · obtain rfl := List.mem_singleton.1 hl
    exact weight_namedOk 119

/-- The file with a label and two graphs, which are saved as CSRs. -/
def betweenFile : Option (List UInt8) :=
  saveHeteroGraphs Stream.plain ⟨1, Nat.one_pos⟩ (single .csr) (List.replicate 4064 0)
    [([121], weight)] [betweenData, betweenData]

lemma length_betweenFile {file : List UInt8} (h : betweenFile = some file) : file.length < 2 ^ 64 := by
  have hlength : betweenFile.all (fun file => file.length < 2 ^ 64) = true := by decide +kernel
  rw [h] at hlength
  exact of_decide_eq_true hlength

/-- The label is loaded, and so are the graphs, the last one first. -/
lemma load_saveHeteroGraphs_between : ∃ file g g', betweenFile = some file ∧
    loadLabels Stream.plain file = some [([121], weight)] ∧
    loadHeteroGraphs Stream.plain 1 file [1, 0] = some [g', g] ∧
    SavedAs (single .csr) (fun _ => oneEdge.entries) betweenData g ∧
    SavedAs (single .csr) (fun _ => oneEdge.entries) betweenData g' := by
  have hgs : ∀ (i : ℕ) (g : GraphData UInt8), [betweenData, betweenData][i]? = some g →
      GraphFits g.gptr (fun _ => (oneEdge.entries : Multiset Entry)) ∧ TensorsFit g := by
    intro i g hg
    obtain rfl : g = betweenData := by simpa using List.mem_of_getElem? hg
    exact betweenData_fits
  have hpadding : (List.replicate 4064 (0 : UInt8)).length = 4096 - 32 := List.length_replicate
  obtain ⟨hsaved, hload⟩ := load_saveHeteroGraphs Stream.plain 1 (single .csr) (E := fun _ _ => oneEdge.entries)
    hgs hpadding (weight_namedOk 121) (by decide)
  obtain ⟨file, hfile⟩ := Option.isSome_iff_exists.1 (hsaved.2 (by decide))
  obtain ⟨hlabels, loaded, hlen, hall, -, hselect⟩ := hload file hfile (length_betweenFile hfile)
  obtain ⟨g, g', rfl⟩ := List.length_eq_two.1 hlen
  exact ⟨file, g, g', hfile, hlabels, hselect [1, 0] (by decide), hall 0 _ g rfl rfl, hall 1 _ g' rfl rfl⟩

end Save

end DglAscend.Serialize
