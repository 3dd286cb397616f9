import Jxlz.Base.Binary32
import Jxlz.Base.Binary32Exact
import Jxlz.Base.Binary32Sqrt
import Jxlz.Base.BitReader
import Jxlz.Base.BitWriter
import Jxlz.Base.Checked
import Jxlz.Base.FixedDisplay
import Jxlz.Base.PackSigned
import Jxlz.Base.Raster
import Jxlz.Base.ReadBack
import Jxlz.Base.ReaderTracks
import Jxlz.Base.SoftFloat
import Jxlz.Base.SoftFloatError
import Jxlz.Base.SoftFloatResult
import Jxlz.Base.WriterCalls
import Jxlz.Capi.BasicInfo
import Jxlz.Capi.BoxDelivery
import Jxlz.Capi.BoxIntact
import Jxlz.Capi.BoxOutput
import Jxlz.Capi.EncoderCalls
import Jxlz.Capi.EncoderImpl
import Jxlz.Capi.EncoderOutput
import Jxlz.Capi.EncoderSteps
import Jxlz.Capi.EncoderTwins
import Jxlz.Capi.FrameSource
import Jxlz.Capi.JpegOutput
import Jxlz.Capi.Orientation
import Jxlz.Capi.OutputBuffers
import Jxlz.Capi.PackedInput
import Jxlz.Capi.PackedRows
import Jxlz.Capi.PixelFormat
import Jxlz.Capi.RejectedCalls
import Jxlz.Capi.StagedFrames
import Jxlz.Capi.StagedInput
import Jxlz.Capi.StagedPlanes
import Jxlz.Codec.AcStrategy
import Jxlz.Codec.Blending
import Jxlz.Codec.BlockMap
import Jxlz.Codec.BlockTiling
import Jxlz.Codec.BlockTransform
import Jxlz.Codec.BoxTiling
import Jxlz.Codec.CoeffOrder
import Jxlz.Codec.CoeffOrderPerm
import Jxlz.Codec.ContainerExact
import Jxlz.Codec.ContainerRoundTrip
import Jxlz.Codec.DecGroup
import Jxlz.Codec.DecodeSession
import Jxlz.Codec.EncApi
import Jxlz.Codec.FieldCoders
import Jxlz.Codec.FloatSamples
import Jxlz.Codec.FrameDimensions
import Jxlz.Codec.FrameHeader
import Jxlz.Codec.GroupAssembly
import Jxlz.Codec.GroupCoverage
import Jxlz.Codec.GroupExact
import Jxlz.Codec.GroupRects
import Jxlz.Codec.ImageMetadata
import Jxlz.Codec.JpegSegments
import Jxlz.Codec.LayerPlacement
import Jxlz.Codec.LongFields
import Jxlz.Codec.NaturalOrder
import Jxlz.Codec.PackedSource
import Jxlz.Codec.PassRanges
import Jxlz.Codec.Passes
import Jxlz.Codec.PatchDictionary
import Jxlz.Codec.PatchesApplied
import Jxlz.Codec.References
import Jxlz.Codec.SessionSteps
import Jxlz.Codec.TocPermutation
import Jxlz.Entropy.AliasTable
import Jxlz.Entropy.AliasTableCorrect
import Jxlz.Entropy.AliasTableReassign
import Jxlz.Entropy.AnsRoundTrip
import Jxlz.Entropy.AnsSymbol
import Jxlz.Entropy.AnsTable
import Jxlz.Entropy.CodeLengthTable
import Jxlz.Entropy.CodeLengthsRead
import Jxlz.Entropy.DecAns
import Jxlz.Entropy.EncAns
import Jxlz.Entropy.HistogramBody
import Jxlz.Entropy.HistogramFields
import Jxlz.Entropy.HistogramGeneral
import Jxlz.Entropy.HistogramRoundTrip
import Jxlz.Entropy.HuffmanCanonical
import Jxlz.Entropy.HybridUint
import Jxlz.Entropy.HybridUintTotal
import Jxlz.Entropy.Lz77Expansion
import Jxlz.Entropy.NormalizeCounts
import Jxlz.Entropy.PrefixCodesTotal
import Jxlz.Entropy.SpecializedReaders
import Jxlz.Icc.IccBody
import Jxlz.Icc.IccCodecCommon
import Jxlz.Icc.IccCommands
import Jxlz.Icc.IccRoundTrip
import Jxlz.Icc.IccStreams
import Jxlz.Icc.IccTagList
import Jxlz.Icc.PredictICC
import Jxlz.Icc.PredictTotal
import Jxlz.Lib.Agree
import Jxlz.Lib.BitString
import Jxlz.Lib.BreadthFirst
import Jxlz.Lib.Delivery
import Jxlz.Lib.FloatFormat
import Jxlz.Lib.GridTiling
import Jxlz.Lib.Meets
import Jxlz.Lib.NearestEven
import Jxlz.Lib.Placing
import Jxlz.Lib.RangeAns
import Jxlz.Lib.Replay
import Jxlz.Lib.ReservedPrefix
import Jxlz.Lib.RestoringDivision
import Jxlz.Lib.Scaled
import Jxlz.Lib.Stateful
import Jxlz.Modular.AlikeLookups
import Jxlz.Modular.ContextPredict
import Jxlz.Modular.DecodeTree
import Jxlz.Modular.EncEncoding
import Jxlz.Modular.Encoding
import Jxlz.Modular.FilterTree
import Jxlz.Modular.FilterTreeDecisions
import Jxlz.Modular.MetaPalette
import Jxlz.Modular.MetaSqueeze
import Jxlz.Modular.ModularImage
import Jxlz.Modular.NoRefsMask
import Jxlz.Modular.PaletteChoices
import Jxlz.Modular.PaletteReversible
import Jxlz.Modular.PaletteSamples
import Jxlz.Modular.Rct
import Jxlz.Modular.RctRoundTrip
import Jxlz.Modular.ReaderDispatch
import Jxlz.Modular.SourceAgreement
import Jxlz.Modular.SpecializedPaths
import Jxlz.Modular.Squeeze
import Jxlz.Modular.SqueezeChannel
import Jxlz.Modular.SqueezeLine
import Jxlz.Modular.SqueezePlan
import Jxlz.Modular.SqueezeRoundTrip
import Jxlz.Modular.SqueezeStructure
import Jxlz.Modular.TokensDecoded
import Jxlz.Modular.TransformHeader
import Jxlz.Modular.UndoTransforms
import Jxlz.Modular.ValidateTree
import Jxlz.Modular.ValidateTreeBounds
import Jxlz.Modular.ValidateTreeExact
import Jxlz.Modular.Weighted
import Jxlz.Modular.WeightedAverage
import Jxlz.Modular.WeightedBuffers
import Jxlz.Modular.WeightedSafe
import Jxlz.Modular.GradientLookup
