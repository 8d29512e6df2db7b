import DshKernel.Llm.ImageTexts
import DshKernel.TokenMeter.SurfaceTokens

/-!
# The price of a surface on a route

A route may price the images of a whole surface together. Each node then costs what it does without
its images, and the prices of its own.
-/

namespace DshKernel.TokenMeter

open Js Session Llm List

/-- `LlmImageRequestPricing` -/
abbrev ImagePricing := List Json → List LlmImageRequestPrice

structure TokenSurfaceNode where
  seq : Nat
  tokens : Int
  heuristicTokens : Nat
  deriving DecidableEq

structure PricedSurface where
  nodes : List TokenSurfaceNode
  surfaceTokens : Int

def imageTokens (price : LlmImageRequestPrice) : Nat :=
  price.visualTokens + (textTokens price.text + blockOverhead)

def pricesTokens (prices : List LlmImageRequestPrice) : Nat := (prices.map imageTokens).sum

def priceNode (node : MeterSurfaceNode) (prices : List LlmImageRequestPrice) : TokenSurfaceNode where
  seq := node.seq
  tokens :=
    if 0 < node.images.length then node.imageFreeTokens + pricesTokens prices
    else node.heuristicTokens
  heuristicTokens := node.heuristicTokens

def priceNodes : List MeterSurfaceNode → List LlmImageRequestPrice → List TokenSurfaceNode
  | [], _ => []
  | node :: rest, prices =>
    priceNode node (prices.take node.images.length) ::
      priceNodes rest (prices.drop node.images.length)

def totalTokens (nodes : List TokenSurfaceNode) : Int := (nodes.map (·.tokens)).sum

def heuristicNode (node : MeterSurfaceNode) : TokenSurfaceNode :=
  ⟨node.seq, node.heuristicTokens, node.heuristicTokens⟩

def surfaceImages (nodes : List MeterSurfaceNode) : List Json := nodes.flatMap (·.images)

def priceSurface (nodes : List MeterSurfaceNode) (pricing : Option ImagePricing) :
    Except String PricedSurface :=
  match pricing with
  | none => .ok ⟨nodes.map heuristicNode, totalTokens (nodes.map heuristicNode)⟩
  | some pricing =>
    let images := surfaceImages nodes
    if images = [] then .ok ⟨nodes.map heuristicNode, totalTokens (nodes.map heuristicNode)⟩
    else
      let prices := pricing images
      if prices.length ≠ images.length then
        .error (s!"token meter: route image pricing answered {prices.length} prices for "
          ++ s!"{images.length} occurrences")
      else .ok ⟨priceNodes nodes prices, totalTokens (priceNodes nodes prices)⟩

/-! ## Totals -/

def imageFree (node : MeterSurfaceNode) : Int :=
  if 0 < node.images.length then node.imageFreeTokens else node.heuristicTokens

def imageFreeTotal (nodes : List MeterSurfaceNode) : Int := (nodes.map imageFree).sum

section
variable {nodes more : List MeterSurfaceNode} {prices : List LlmImageRequestPrice}
variable {pricing : ImagePricing}

theorem imageFreeTotal_append :
    imageFreeTotal (nodes ++ more) = imageFreeTotal nodes + imageFreeTotal more := by
  simp [imageFreeTotal]

theorem surfaceImages_append : surfaceImages (nodes ++ more) = surfaceImages nodes ++ surfaceImages more :=
  flatMap_append

theorem pricesTokens_append (prices later : List LlmImageRequestPrice) :
    pricesTokens (prices ++ later) = pricesTokens prices + pricesTokens later := by
  simp [pricesTokens]

theorem length_priceNodes : (priceNodes nodes prices).length = nodes.length := by
  induction nodes generalizing prices with
  | nil => rfl
  | cons node rest ih => rw [priceNodes, length_cons, ih, length_cons]

theorem priceNodes_append : priceNodes (nodes ++ more) prices =
    priceNodes nodes (prices.take (surfaceImages nodes).length) ++
      priceNodes more (prices.drop (surfaceImages nodes).length) := by
  induction nodes generalizing prices with
  | nil => simp [priceNodes, surfaceImages]
  | cons node rest ih =>
    have himages : (surfaceImages (node :: rest)).length =
        node.images.length + (surfaceImages rest).length := by
      simp [surfaceImages]
    rw [cons_append, priceNodes, priceNodes, ih, himages, take_take,
      Nat.min_eq_left (Nat.le_add_right _ _), drop_take, Nat.add_sub_cancel_left, drop_drop,
      cons_append]

theorem totalTokens_priceNodes (h : prices.length = (surfaceImages nodes).length) :
    totalTokens (priceNodes nodes prices) = imageFreeTotal nodes + pricesTokens prices := by
  induction nodes generalizing prices with
  | nil =>
    have hnil : prices = [] := length_eq_zero_iff.mp h
    rw [hnil]
    rfl
  | cons node rest ih =>
    have himages : (surfaceImages (node :: rest)).length =
        node.images.length + (surfaceImages rest).length := by
      simp [surfaceImages]
    have hrest := @ih (prices.drop node.images.length) (by rw [length_drop]; omega)
    have hsplit := pricesTokens_append (prices.take node.images.length)
      (prices.drop node.images.length)
    rw [take_append_drop] at hsplit
    have htotal : totalTokens (priceNodes (node :: rest) prices) =
        (priceNode node (prices.take node.images.length)).tokens +
          totalTokens (priceNodes rest (prices.drop node.images.length)) := by
      simp [totalTokens, priceNodes]
    have hfree : imageFreeTotal (node :: rest) = imageFree node + imageFreeTotal rest := by
      simp [imageFreeTotal]
    rw [htotal, hrest, hfree, hsplit]
    unfold priceNode imageFree
    by_cases hpos : 0 < node.images.length
    · simp only [hpos, if_true]
      push_cast
      omega
    · have hzero : node.images.length = 0 := by omega
      rw [if_neg hpos, if_neg hpos, hzero, take_zero]
      simp only [pricesTokens, map_nil, sum_nil]
      push_cast
      omega

theorem priceNodes_nil (h : surfaceImages nodes = []) :
    priceNodes nodes [] = nodes.map heuristicNode := by
  induction nodes with
  | nil => rfl
  | cons node rest ih =>
    obtain ⟨hnode, hrest⟩ := append_eq_nil_iff.mp h
    have hzero : ¬ 0 < node.images.length := by
      have hlength := congrArg length hnode
      simp only [length_nil] at hlength
      omega
    rw [priceNodes, drop_nil, ih hrest, map_cons, priceNode, if_neg hzero]
    rfl

theorem priceSurface_some (hpricing : ∀ images, (pricing images).length = images.length) :
    priceSurface nodes (some pricing) = .ok ⟨priceNodes nodes (pricing (surfaceImages nodes)),
      totalTokens (priceNodes nodes (pricing (surfaceImages nodes)))⟩ := by
  simp only [priceSurface]
  by_cases hnone : surfaceImages nodes = []
  · have hprices : pricing (surfaceImages nodes) = [] := by
      apply length_eq_zero_iff.mp
      rw [hpricing, hnone]
      rfl
    rw [if_pos hnone, hprices, priceNodes_nil hnone]
  · rw [if_neg hnone, if_neg (not_not_intro (hpricing _))]

theorem map_seq_priceNodes : (priceNodes nodes prices).map (·.seq) = nodes.map (·.seq) := by
  induction nodes generalizing prices with
  | nil => rfl
  | cons node rest ih =>
    rw [priceNodes, map_cons, ih, map_cons]
    rfl

theorem map_seq_priceSurface {measured : PricedSurface} {pricing : Option ImagePricing}
    (h : priceSurface nodes pricing = .ok measured) :
    measured.nodes.map (·.seq) = nodes.map (·.seq) := by
  have hheuristic : (nodes.map heuristicNode).map (·.seq) = nodes.map (·.seq) := by
    rw [map_map]
    rfl
  cases pricing with
  | none =>
    cases h
    exact hheuristic
  | some pricing =>
    simp only [priceSurface] at h
    split at h
    · cases h
      exact hheuristic
    · split at h
      · cases h
      · cases h
        exact map_seq_priceNodes

theorem totalTokens_append (front back : List TokenSurfaceNode) :
    totalTokens (front ++ back) = totalTokens front + totalTokens back := by
  simp [totalTokens]

end

end DshKernel.TokenMeter
