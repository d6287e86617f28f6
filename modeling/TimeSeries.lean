import TimeSeries.Client.Basic
import TimeSeries.Client.Query
import TimeSeries.Client.Write
import TimeSeries.ConfigError
import TimeSeries.Csv.Row
import TimeSeries.Error
import TimeSeries.Flux.Draft
import TimeSeries.Flux.Duration
import TimeSeries.Flux.Literal
import TimeSeries.Flux.Operator
import TimeSeries.Flux.Property
import TimeSeries.Flux.Query
import TimeSeries.Flux.Restriction
import TimeSeries.Flux.Setting
import TimeSeries.Flux.Writing
import TimeSeries.Http.Complaint
import TimeSeries.Http.Exchange
import TimeSeries.Http.Status
import TimeSeries.Json.Basic
import TimeSeries.Json.Decode
import TimeSeries.Json.Quote
import TimeSeries.Json.Token
import TimeSeries.KeyMap
import TimeSeries.Number.Binary
import TimeSeries.Number.Integer
import TimeSeries.Number.Numeral
import TimeSeries.Number.Shortest
import TimeSeries.Point.Basic
import TimeSeries.Point.Error
import TimeSeries.Point.Field
import TimeSeries.Point.Line
import TimeSeries.Point.LineBuffer
import TimeSeries.Point.Precision
import TimeSeries.Point.Series
import TimeSeries.Proofs.Client.Streaming
import TimeSeries.Proofs.Csv.Continuation
import TimeSeries.Proofs.Csv.Form
import TimeSeries.Proofs.Csv.Grid
import TimeSeries.Proofs.Csv.Lines
import TimeSeries.Proofs.Csv.Print
import TimeSeries.Proofs.Flux.Arguments
import TimeSeries.Proofs.Flux.Condition
import TimeSeries.Proofs.Flux.Determination
import TimeSeries.Proofs.Flux.LiteralReader
import TimeSeries.Proofs.Flux.Operator
import TimeSeries.Proofs.Flux.Parameters
import TimeSeries.Proofs.Flux.Phrase
import TimeSeries.Proofs.Flux.Restriction
import TimeSeries.Proofs.Flux.Writing
import TimeSeries.Proofs.Http.RejectedLines
import TimeSeries.Proofs.KeyMap
import TimeSeries.Proofs.Number.Decimal
import TimeSeries.Proofs.Number.Literal
import TimeSeries.Proofs.Pipeline.Accounting
import TimeSeries.Proofs.Pipeline.Again
import TimeSeries.Proofs.Pipeline.Attempts
import TimeSeries.Proofs.Pipeline.Body
import TimeSeries.Proofs.Pipeline.Capacity
import TimeSeries.Proofs.Pipeline.Closing
import TimeSeries.Proofs.Pipeline.Conservation
import TimeSeries.Proofs.Pipeline.Delivery
import TimeSeries.Proofs.Pipeline.Exchange
import TimeSeries.Proofs.Pipeline.LastAttempt
import TimeSeries.Proofs.Pipeline.Order
import TimeSeries.Proofs.Pipeline.Report
import TimeSeries.Proofs.Pipeline.RetryBuffer
import TimeSeries.Proofs.Pipeline.Run
import TimeSeries.Proofs.Pipeline.Trigger
import TimeSeries.Proofs.Point.Canonical
import TimeSeries.Proofs.Point.Conversion
import TimeSeries.Proofs.Point.LineBuffer
import TimeSeries.Proofs.Point.LineFeed
import TimeSeries.Proofs.Point.LineReader
import TimeSeries.Proofs.Point.SeriesEncoding
import TimeSeries.Proofs.Point.SeriesKey
import TimeSeries.Proofs.Point.Timestamp
import TimeSeries.Proofs.Table.Boundary
import TimeSeries.Proofs.Table.Calls
import TimeSeries.Proofs.Table.Calm
import TimeSeries.Proofs.Table.Continuation
import TimeSeries.Proofs.Table.Current
import TimeSeries.Proofs.Table.DeclaredTypes
import TimeSeries.Proofs.Table.Decoding
import TimeSeries.Proofs.Table.EmptyCells
import TimeSeries.Proofs.Table.Ending
import TimeSeries.Proofs.Table.Faultless
import TimeSeries.Proofs.Table.Faults
import TimeSeries.Proofs.Table.FieldCells
import TimeSeries.Proofs.Table.Filled
import TimeSeries.Proofs.Table.Malformed
import TimeSeries.Proofs.Table.Numbering
import TimeSeries.Proofs.Table.Report
import TimeSeries.Proofs.Table.RoundTrip
import TimeSeries.Proofs.Table.Scan
import TimeSeries.Proofs.Table.Shape
import TimeSeries.Proofs.Table.Turn
import TimeSeries.Proofs.Table.Typed
import TimeSeries.Proofs.Text.ByteOrder
import TimeSeries.Proofs.Text.Encoded
import TimeSeries.Proofs.Text.Lines
import TimeSeries.Proofs.Text.Lossy
import TimeSeries.Proofs.Text.Run
import TimeSeries.Proofs.Text.Search
import TimeSeries.Proofs.Text.Trim
import TimeSeries.Proofs.Time.Calendar
import TimeSeries.Proofs.Time.Span
import TimeSeries.Proofs.Time.Written
import TimeSeries.Settings
import TimeSeries.Table.Cell
import TimeSeries.Table.Decode
import TimeSeries.Table.Error
import TimeSeries.Table.Scan
import TimeSeries.Table.Types
import TimeSeries.Text.Base64
import TimeSeries.Text.Blank
import TimeSeries.Text.Escape
import TimeSeries.Text.Hex
import TimeSeries.Text.Lines
import TimeSeries.Text.Search
import TimeSeries.Text.Split
import TimeSeries.Text.Utf8
import TimeSeries.Text.Visible
import TimeSeries.Time.Calendar
import TimeSeries.Time.Moment
import TimeSeries.Time.Rfc3339
import TimeSeries.Time.Span
import TimeSeries.Url.Address
import TimeSeries.Url.Basic
import TimeSeries.Url.Domain
import TimeSeries.Url.Parse
import TimeSeries.Url.Percent
import TimeSeries.Url.Punycode
import TimeSeries.Value.Basic
import TimeSeries.Value.Text
import TimeSeries.Write.Delivery
import TimeSeries.Write.Event
import TimeSeries.Write.Options
import TimeSeries.Write.Outcome
import TimeSeries.Write.Pipeline.State
import TimeSeries.Write.Pipeline.Step
import TimeSeries.Write.Request
import TimeSeries.Write.RetryBuffer
import TimeSeries.Write.Session
