import Protowire.Detail.Base64
import Protowire.Detail.Base64Core
import Protowire.Detail.Bytes
import Protowire.Detail.BytesCore
import Protowire.Detail.Calendar
import Protowire.Detail.Decimal
import Protowire.Detail.Duration
import Protowire.Detail.DurationText
import Protowire.Detail.FloatConvert
import Protowire.Detail.FloatConvertCore
import Protowire.Detail.FloatCore
import Protowire.Detail.GoQuoteCore
import Protowire.Detail.GoTimestamp
import Protowire.Detail.GoTimestampCore
import Protowire.Detail.LimitsCore
import Protowire.Detail.Padded
import Protowire.Detail.Rfc3339
import Protowire.Detail.Runes
import Protowire.Detail.TimeCore
import Protowire.Detail.Utf8
import Protowire.Pb.BigCore
import Protowire.Pb.BigMessageCore
import Protowire.Pb.BigMessages
import Protowire.Pb.Bytewise
import Protowire.Pb.BytewiseCore
import Protowire.Pb.Canonical
import Protowire.Pb.Conforming
import Protowire.Pb.Grammar
import Protowire.Pb.Merging
import Protowire.Pb.Native
import Protowire.Pb.NativeCore
import Protowire.Pb.PrecisionDigits
import Protowire.Pb.Records
import Protowire.Pb.RecordsCore
import Protowire.Pb.Skipping
import Protowire.Pb.Stream
import Protowire.Pb.StreamCore
import Protowire.Pb.Wire
import Protowire.Pb.WireCore
import Protowire.Pxf.Agreement
import Protowire.Pxf.Ast
import Protowire.Pxf.BigFloatCore
import Protowire.Pxf.BigFloatDigits
import Protowire.Pxf.BigFloatReading
import Protowire.Pxf.BigLiterals
import Protowire.Pxf.BigNumbers
import Protowire.Pxf.BraceMatch
import Protowire.Pxf.BraceMatchCore
import Protowire.Pxf.Brackets
import Protowire.Pxf.Closure
import Protowire.Pxf.Comments
import Protowire.Pxf.CommentsKept
import Protowire.Pxf.Datasets
import Protowire.Pxf.Decoder
import Protowire.Pxf.DecoderCore
import Protowire.Pxf.DescriptorCore
import Protowire.Pxf.DocumentCore
import Protowire.Pxf.EncodeCore
import Protowire.Pxf.FormatCore
import Protowire.Pxf.Kinds
import Protowire.Pxf.Lexer
import Protowire.Pxf.LexerCore
import Protowire.Pxf.LiteralCore
import Protowire.Pxf.MessageCore
import Protowire.Pxf.Moving
import Protowire.Pxf.NumberTokens
import Protowire.Pxf.Outside
import Protowire.Pxf.Parser
import Protowire.Pxf.ParserCore
import Protowire.Pxf.Places
import Protowire.Pxf.Quoting
import Protowire.Pxf.Reading
import Protowire.Pxf.Recovery
import Protowire.Pxf.Rewriter
import Protowire.Pxf.RewriterCore
import Protowire.Pxf.SchemaCore
import Protowire.Pxf.Staging
import Protowire.Pxf.TimeTokens
import Protowire.Pxf.Token
import Protowire.Pxf.Tolerant
import Protowire.Pxf.TolerantDocument
import Protowire.Pxf.UnmarshalCore
import Protowire.Pxf.Violations
import Protowire.Sbe.CodecCore
import Protowire.Sbe.ConvertCore
import Protowire.Sbe.Cycles
import Protowire.Sbe.Declared
import Protowire.Sbe.Evolution
import Protowire.Sbe.Identity
import Protowire.Sbe.Import
import Protowire.Sbe.Integers
import Protowire.Sbe.Layout
import Protowire.Sbe.Names
import Protowire.Sbe.Placing
import Protowire.Sbe.Reading
import Protowire.Sbe.RoundTrip
import Protowire.Sbe.Scalars
import Protowire.Sbe.SchemaCore
import Protowire.Sbe.Stream
import Protowire.Sbe.StreamCore
import Protowire.Sbe.Template
import Protowire.Sbe.Tiling
import Protowire.Sbe.View
import Protowire.Sbe.Written
import Protowire.Sbe.XmlCore
import Protowire.Support.Calendar
import Protowire.Support.Digits
import Protowire.Support.Filing
import Protowire.Support.Floating
import Protowire.Support.Framing
import Protowire.Support.Iterate
import Protowire.Support.Limbs
import Protowire.Support.Logarithm
import Protowire.Support.LongDivision
import Protowire.Support.Ordered
import Protowire.Support.Outcome
import Protowire.Support.Rounding
import Protowire.Support.Splicing
import Protowire.Support.Stateful
import Protowire.Support.Wrapping
